import UnitCheck.Text.Ranges

/-!
# Canonical decomposition data

The two tables behind canonical composition: what code points decompose into, and combining classes.
Hangul syllables are computed and have no entries.
-/

namespace UnitCheck.Composition

/-- What a code point decomposes into; only the first of the parts may decompose further. -/
structure Decomposition where
  code : Nat
  parts : List Nat
  /-- Whether the parts compose to the code point again. -/
  isComposed : Bool

/-- Reads `a+b`, which composes again, or `a-b-c`, which does not. -/
def Decomposition.ofWord (code : Nat) (w : List Char) : Decomposition :=
  let isComposed := w.contains '+'
  ⟨code, (CodeRanges.splitChars (if isComposed then '+' else '-') w).map CodeRanges.number, isComposed⟩

/-- Reads `a/b+c/d` as `a+c`, `b+c`, `a+d` and `b+d`. -/
def Decomposition.spread (w : List Char) : List (List Char) :=
  let isSign := fun c => c == '+' || c == '-'
  let firsts := CodeRanges.splitChars '/' (w.takeWhile (!isSign ·))
  match w.dropWhile (!isSign ·) with
  | [] => firsts
  | sign :: rest => (CodeRanges.splitChars '/' rest).flatMap fun r => firsts.map (· ++ sign :: r)

/-- Reads `a=p,q,r` as the decompositions of `a` and of the code points behind it. Ideographs, which
decompose into one another, stand for themselves. -/
def Decomposition.run (w : List Char) : List Decomposition :=
  let (first, parts) := CodeRanges.cut '=' w
  if parts.all (0x3000 < ·.toNat) then
    parts.mapIdx fun i c => ⟨CodeRanges.number first + i, [c.toNat], false⟩
  else ((CodeRanges.splitChars ',' parts).flatMap spread).mapIdx fun i p =>
    .ofWord (CodeRanges.number first + i) p

/-- The decompositions of Latin letters and of the marks in use with them. -/
def latinDecompositions : List Decomposition :=
  (CodeRanges.words "
C0=41+300/301/302/303/308/30A C7=43+327,45+300/301/302/308,49+300/301/302/308
D1=4E+303,4F+300/301/302/303/308 D9=55+300/301/302/308,59+301 E0=61+300/301/302/303/308/30A
E7=63+327,65+300/301/302/308,69+300/301/302/308 F1=6E+303,6F+300/301/302/303/308
F9=75+300/301/302/308,79+301 FF=79+308,41/61+304/306/328,43/63+301/302/307/30C,44/64+30C
112=45/65+304/306/307/328/30C,47/67+302/306/307/327,48/68+302 128=49/69+303/304/306/328,49+307
134=4A/6A+302,4B/6B+327 139=4C/6C+301/327/30C 143=4E/6E+301/327/30C 14C=4F/6F+304/306/30B
154=52/72+301/327/30C,53/73+301/302/327/30C,54/74+327/30C
168=55/75+303/304/306/30A/30B/328,57/77/59/79+302,59+308,5A/7A+301/307/30C 1A0=4F/6F+31B
1AF=55/75+31B 1CD=41/61/49/69/4F/6F/55/75+30C,DC/FC+304/301/30C/300 1DE=C4/E4/226/227/C6/E6+304
1E6=47/67/4B/6B+30C,4F/6F+328,1EA/1EB+304,1B7/292/6A+30C 1F4=47/67+301
1F8=4E/6E+300,C5/E5/C6/E6/D8/F8+301,41/61+30F/311,45/65+30F/311,49/69+30F/311,4F/6F+30F/311
210=52/72+30F/311,55/75+30F/311,53/73/54/74+326 21E=48/68+30C
226=41/61+307,45/65+327,D6/F6/D5/F5+304,4F/6F+307,22E/22F/59/79+304 340=300,301 343=313,308-301").flatMap Decomposition.run

def otherDecompositions : List Decomposition :=
  (CodeRanges.words "
374=2B9 37E=3B 385=A8/391+301,B7,395/397/399+301 38C=39F+301 38E=3A5/3A9/3CA+301
3AA=399/3A5+308,3B1/3B5/3B7/3B9/3CB+301 3CA=3B9/3C5+308,3BF/3C5/3C9+301 3D3=3D2+301/308
400=415+300/308 403=413+301 407=406+308 40C=41A+301,418+300,423+306 419=418+306 439=438+306
450=435+300/308 453=433+301 457=456+308 45C=43A+301,438+300,443+306 476=474/475+30F 4C1=416/436+306
4D0=410/430+306/308 4D6=415/435+306 4DA=4D8/4D9/416/436/417/437+308 4E2=418/438+304/308,41E/43E+308
4EA=4E8/4E9/42D/44D+308,423/443+304/308/30B,427/447+308 4F8=42B/44B+308
622=627+653,627/648+654,627+655,64A+654 6C0=6D5+654 6C2=6C1+654 6D3=6D2+654 929=928+93C 931=930+93C
934=933+93C 958=915/916/917/91C/921/922/92B/92F-93C 9CB=9C7+9BE/9D7 9DC=9A1/9A2-9BC 9DF=9AF-9BC
A33=A32-A3C A36=A38-A3C A59=A16/A17/A1C-A3C A5E=A2B-A3C B48=B47+B56 B4B=B47+B3E/B57 B5C=B21/B22-B3C
B94=B92+BD7 BCA=BC6/BC7+BBE,BC6+BD7 C48=C46+C56 CC0=CBF+CD5 CC7=CC6+CD5/CD6 CCA=CC6+CC2,CCA+CD5
D4A=D46/D47+D3E,D46+D57 DDA=DD9+DCA DDC=DD9+DCF,DDC+DCA,DD9+DDF F43=F42-FB7 F4D=F4C-FB7 F52=F51-FB7
F57=F56-FB7 F5C=F5B-FB7 F69=F40-FB5 F73=F71-F72 F75=F71-F74,FB2-F80 F78=FB3-F80 F81=F71-F80
F93=F92-FB7 F9D=F9C-FB7 FA2=FA1-FB7 FA7=FA6-FB7 FAC=FAB-FB7 FB9=F90-FB5 1026=1025+102E
1B06=1B05+1B35 1B08=1B07+1B35 1B0A=1B09+1B35 1B0C=1B0B+1B35 1B0E=1B0D+1B35 1B12=1B11+1B35
1B3B=1B3A+1B35 1B3D=1B3C+1B35 1B40=1B3E/1B3F+1B35 1B43=1B42+1B35
1E00=41/61+325,42/62+307/323/331,C7/E7+301,44/64+307/323/331/327/32D,112/113+300/301,45/65+32D/330
1E1C=228/229+306,46/66+307,47/67+304,48/68+307/323/308/327/32E,49/69+330,CF/EF+301,4B/6B+301/323/331
1E36=4C/6C+323,1E36/1E37+304,4C/6C+331/32D,4D/6D+301/307/323,4E/6E+307/323/331/32D,D5/F5+301/308
1E50=14C/14D+300/301,50/70+301/307,52/72+307/323,1E5A/1E5B+304,52/72+331,53/73+307/323
1E64=15A/15B/160/161/1E62/1E63+307,54/74+307/323/331/32D,55/75+324/330/32D,168/169+301,16A/16B+308
1E7C=56/76+303/323,57/77+300/301/308/307/323,58/78+307/308,59/79+307,5A/7A+302/323/331,68+331,74+308
1E98=77/79+30A 1E9B=17F+307
1EA0=41/61+323/309,C2/E2+301/300/309/303,1EA0/1EA1+302,102/103+301/300/309/303,1EA0/1EA1+306
1EB8=45/65+323/309/303,CA/EA+301/300/309/303,1EB8/1EB9+302,49/69+309/323,4F/6F+323/309
1ED0=D4/F4+301/300/309/303,1ECC/1ECD+302,1A0/1A1+301/300/309/303/323,55/75+323/309
1EE8=1AF/1B0+301/300/309/303/323,59/79+300/323/309/303
1F00=3B1+313/314,1F00/1F01+300/301/342,391+313/314,1F08/1F09+300/301/342,3B5+313/314
1F12=1F10/1F11+300/301 1F18=395+313/314,1F18/1F19+300/301
1F20=3B7+313/314,1F20/1F21+300/301/342,397+313/314,1F28/1F29+300/301/342,3B9+313/314
1F32=1F30/1F31+300/301/342,399+313/314,1F38/1F39+300/301/342,3BF+313/314,1F40/1F41+300/301
1F48=39F+313/314,1F48/1F49+300/301 1F50=3C5+313/314,1F50/1F51+300/301/342 1F59=3A5+314 1F5B=1F59+300
1F5D=1F59+301
1F5F=1F59+342,3C9+313/314,1F60/1F61+300/301/342,3A9+313/314,1F68/1F69+300/301/342,3B1+300,3B1-301
1F72=3B5+300,3B5-301,3B7+300,3B7-301,3B9+300,3B9-301,3BF+300,3BF-301,3C5+300,3C5-301,3C9+300,3C9-301
1F80=1F00/1F01/1F02+345,1F03/1F04/1F05/1F06/1F07/1F08/1F09/1F0A/1F0B+345
1F8C=1F0C/1F0D/1F0E/1F0F/1F20/1F21/1F22/1F23/1F24+345
1F95=1F25/1F26/1F27/1F28/1F29/1F2A/1F2B/1F2C/1F2D+345
1F9E=1F2E/1F2F/1F60/1F61/1F62/1F63/1F64/1F65/1F66+345
1FA7=1F67/1F68/1F69/1F6A/1F6B/1F6C/1F6D/1F6E/1F6F+345,3B1+306/304,1F70/3B1/3AC+345
1FB6=3B1+342,1FB6+345,391+306/304/300,391-301,391+345 1FBE=3B9 1FC1=A8+342,1F74/3B7/3AE+345
1FC6=3B7+342,1FC6+345,395+300,395-301,397+300,397-301,397+345,1FBF+300/301/342,3B9+306/304,3CA+300
1FD3=3B9-308-301 1FD6=3B9/3CA+342,399+306/304/300,399-301
1FDD=1FFE+300/301/342,3C5+306/304,3CB+300,3C5-308-301,3C1+313/314,3C5/3CB+342,3A5+306/304/300
1FEB=3A5-301,3A1+314,A8+300,A8-301,60 1FF2=1F7C/3C9/3CE+345
1FF6=3C9+342,1FF6+345,39F+300,39F-301,3A9+300,3A9-301,3A9+345,B4 2000=2002,2003 2126=3A9
212A=4B,41-30A 219A=2190/2192+338 21AE=2194+338 21CD=21D0/21D4/21D2+338 2204=2203+338 2209=2208+338
220C=220B+338 2224=2223+338 2226=2225+338 2241=223C+338 2244=2243+338 2247=2245+338 2249=2248+338
2260=3D+338 2262=2261+338 226D=224D/3C/3E/2264/2265+338 2274=2272/2273+338 2278=2276/2277+338
2280=227A/227B+338 2284=2282/2283+338 2288=2286/2287+338 22AC=22A2/22A8/22A9/22AB+338
22E0=227C/227D/2291/2292+338 22EA=22B2/22B3/22B4/22B5+338 2329=〈〉 2ADC=2ADD-338 304C=304B+3099
304E=304D+3099 3050=304F+3099 3052=3051+3099 3054=3053+3099 3056=3055+3099 3058=3057+3099
305A=3059+3099 305C=305B+3099 305E=305D+3099 3060=305F+3099 3062=3061+3099 3065=3064+3099
3067=3066+3099 3069=3068+3099 3070=306F+3099/309A 3073=3072+3099/309A 3076=3075+3099/309A
3079=3078+3099/309A 307C=307B+3099/309A 3094=3046+3099 309E=309D+3099 30AC=30AB+3099 30AE=30AD+3099
30B0=30AF+3099 30B2=30B1+3099 30B4=30B3+3099 30B6=30B5+3099 30B8=30B7+3099 30BA=30B9+3099
30BC=30BB+3099 30BE=30BD+3099 30C0=30BF+3099 30C2=30C1+3099 30C5=30C4+3099 30C7=30C6+3099
30C9=30C8+3099 30D0=30CF+3099/309A 30D3=30D2+3099/309A 30D6=30D5+3099/309A 30D9=30D8+3099/309A
30DC=30DB+3099/309A 30F4=30A6+3099 30F7=30EF/30F0/30F1/30F2+3099 30FE=30FD+3099
F900=豈更車賈滑串句龜龜契金喇奈懶癩羅蘿螺裸邏樂洛烙珞落酪駱亂卵欄爛蘭鸞嵐濫藍襤拉臘蠟廊朗浪狼郎來冷勞擄櫓爐盧老蘆虜路露魯鷺碌祿綠菉錄鹿論壟弄籠聾牢磊賂雷壘屢樓淚漏累縷陋勒肋凜凌稜綾菱陵讀拏樂諾丹
F95F=寧怒率異北磻便復不泌數索參塞省葉說殺辰沈拾若掠略亮兩凉梁糧良諒量勵呂女廬旅濾礪閭驪麗黎力曆歷轢年憐戀撚漣煉璉秊練聯輦蓮連鍊列劣咽烈裂說廉念捻殮簾獵令囹寧嶺怜玲瑩羚聆鈴零靈領例禮醴隸惡了僚寮尿
F9BE=料樂燎療蓼遼龍暈阮劉杻柳流溜琉留硫紐類六戮陸倫崙淪輪律慄栗率隆利吏履易李梨泥理痢罹裏裡里離匿溺吝燐璘藺隣鱗麟林淋臨立笠粒狀炙識什茶刺切度拓糖宅洞暴輻行降見廓兀嗀 FA10=塚 FA12=晴
FA15=凞猪益礼神祥福靖精羽 FA20=蘒 FA22=諸 FA25=逸都
FA2A=飯飼館鶴郞隷侮僧免勉勤卑喝嘆器塀墨層屮悔慨憎懲敏既暑梅海渚漢煮爫琢碑社祉祈祐祖祝禍禎穀突節練縉繁署者臭艹艹著褐視謁謹賓贈辶逸難響頻恵𤋮舘
FA70=並况全侀充冀勇勺喝啕喙嗢塚墳奄奔婢嬨廒廙彩徭惘慎愈憎慠懲戴揄搜摒敖晴朗望杖歹殺流滛滋漢瀞煮瞧爵犯猪瑱甆画瘝瘟益盛直睊着磌窱節类絛練缾者荒華蝹襁覆視調諸請謁諾諭謹變贈輸遲醙鉶陼難靖韛響頋頻鬒龜
FACF=𢡊𢡄𣏕㮝䀘䀹𥉉𥳐𧻓齃龎 FB1D=5D9-5B4 FB1F=5F2-5B7
FB2A=5E9-5C1/5C2/5BC-5C1/5BC-5C2,5D0-5B7/5B8,5D0/5D1/5D2/5D3/5D4/5D5/5D6-5BC
FB38=5D8/5D9/5DA/5DB/5DC-5BC FB3E=5DE-5BC FB40=5E0/5E1-5BC FB43=5E3/5E4-5BC
FB46=5E6/5E7/5E8/5E9/5EA-5BC,5D5-5B9,5D1/5DB/5E4-5BF 1109A=11099+110BA 1109C=1109B+110BA
110AB=110A5+110BA 1112E=11131/11132+11127 1134B=11347+1133E/11357 114BB=114B9+114BA/114B0
114BE=114B9+114BD 115BA=115B8/115B9+115AF 11938=11935+11930
1D15E=1D157-1D165,1D158-1D165/1D165-1D16E,1D158-1D165-1D16F/1D165-1D170/1D165-1D171/1D165-1D172
1D1BB=1D1B9/1D1BA-1D165/1D165-1D16E/1D165-1D16F
2F800=丽丸乁𠄢你侮侻倂偺備僧像㒞𠘺免兔兤具𠔜㒹內再𠕋冗冤仌冬况𩇟凵刃㓟刻剆割剷㔕勇勉勤勺包匆北卉卑博即卽卿卿卿𠨬灰及叟𠭣叫叱吆咞吸呈周咢哶唐啓啣善善喙喫喳嗂圖嘆圗噑噴切壮城埴堍型堲報墬𡓤売壷夆多夢
2F85F=奢𡚨𡛪姬娛娧姘婦㛮㛼嬈嬾嬾𡧈寃寘寧寳𡬘寿将当尢㞁屠屮峀岍𡷤嵃𡷦嵮嵫嵼巡巢㠯巽帨帽幩㡢𢆃㡼庰庳庶廊𪎒廾𢌱𢌱舁弢弢㣇𣊸𦇚形彫㣣徚忍志忹悁㤺㤜悔𢛔惇慈慌慎慌慺憎憲憤憯懞懲懶成戛扝抱拔捐𢬌挽拼捨掃揤
2F8BE=𢯱搢揅掩㨮摩摾撝摷㩬敏敬𣀊旣書晉㬙暑㬈㫤冒冕最暜肭䏙朗望朡杞杓𣏃㭉柺枅桒梅𣑭梎栟椔㮝楂榣槪檨𣚣櫛㰘次𣢧歔㱎歲殟殺殻𣪍𡴋𣫺汎𣲼沿泍汧洖派海流浩浸涅𣴞洴港湮㴳滋滇𣻑淹潮𣽞𣾎濆瀹瀞瀛㶖灊災灷炭𠔥煅
2F91D=𤉣熜𤎫爨爵牐𤘈犀犕𤜵𤠔獺王㺬玥㺸㺸瑇瑜瑱璅瓊㼛甤𤰶甾𤲒異𢆟瘐𤾡𤾸𥁄㿼䀈直𥃳𥃲𥄙𥄳眞真真睊䀹瞋䁆䂖𥐝硎碌磌䃣𥘦祖𥚚𥛅福秫䄯穀穊穏𥥼𥪧𥪧竮䈂𥮫篆築䈧𥲀糒䊠糨糣紀𥾆絣䌁緇縂繅䌴𦈨𦉇䍙𦋙罺𦌾羕翺者𦓚
2F97C=𦔣聠𦖨聰𣍟䏕育脃䐋脾媵𦞧𦞵𣎓𣎜舁舄辞䑫芑芋芝劳花芳芽苦𦬼若茝荣莭茣莽菧著荓菊菌菜𦰶𦵫𦳕䔫蓱蓳蔖𧏊蕤𦼬䕝䕡𦾱𧃒䕫虐虜虧虩蚩蚈蜎蛢蝹蜨蝫螆䗗蟡蠁䗹衠衣𧙧裗裞䘵裺㒻𧢮𧥦䚾䛇誠諭變豕𧲨貫賁贛起𧼯𠠄跋
2F9DB=趼跰𠣞軔輸𨗒𨗭邔郱鄑𨜮鄛鈸鋗鋘鉼鏹鐕𨯺開䦕閷𨵷䧦雃嶲霣𩅅𩈚䩮䩶韠𩐊䪲𩒖頋頋頩𩖶飢䬳餩馧駂駾䯎𩬰鬒鱀鳽䳎䳭鵧𪃎䳸𪄅𪈎𪊑麻䵖黹黾鼅鼏鼖鼻𪘀").flatMap Decomposition.run

def combiningClassesOf (ws : List (List Char)) : List (Nat × CodeRanges) :=
  ws.map fun w =>
    let (cls, ranges) := CodeRanges.cut '=' w
    (CodeRanges.number cls, .ofGaps (CodeRanges.splitChars ',' ranges))

def combiningClasses : List (Nat × CodeRanges) :=
  combiningClassesOf (CodeRanges.words "
1=334+4,199C,E+6,3EA+1,5+2,B+1,4+1,E94E,60B7+4,51AA,14C9+2 6=16FF0+1
7=93C,80,80,80,80,100,80,37B,AFD,B2,51,8D7C,6707,B9,57,6C,B3,52+1,10A,7D,FD,F7,183,109,3FF,CC08
8=3099+1
9=94D,80,80,80,80,80,80,80,6E+1,11,7D,70,80,CA,B5+1,6DA+1,1F,9E,28E,E4,66+1,47+1,118C,7A87,26,98,8F
9=A9C0,136,F7,5E52,607,2A,F,3A,7A+1,8C,75,B5,63,F5,80,FD,80,77,75,10E,104+1,A2,54,13,52,1A6,105+1,52
9=11F41+1 A=5B0 B=5B1 C=5B2 D=5B3 E=5B4 F=5B5 10=5B6 11=5B7 12=5B8,F 13=5B9+1 14=5BB 15=5BC 16=5BD
17=5BF 18=5C1 19=5C2 1A=FB1E 1B=64B,2A5 1C=64C,2A5 1D=64D,2A5 1E=618,36 1F=619,36 20=61A,36 21=651
22=652 23=670 24=711 54=C55 5B=C56 67=E38+1 6B=E48+3 76=EB8+1 7A=EC8+3 81=F71 82=F72,8+3,3 84=F74
CA=321+1,5+1,1AA8 D6=1DCE D8=31B,C1E,1C22C+1,8+4 DA=1DFA,1230
DC=316+3,3+4,3+3,3+A,6+3,B+2,4+1,5+3,3+1,237,5,5,7+5,3,1B,90+1,6,3,84,7,3,44,3,3+2,2+1,2,4,2,2,2,AA
DC=7FD,5C+2,3E+2,34+4,10,3,3,4+2,7,3+1,58,5C6+1,1C,2,8F,C7,8AE,DD,67,36+5,3,2+1,3+1,6,A2,169+4,3+3,E
DC=1DC2,8,5,2A,4,2,2E9,4+3,883C+2,187,5373+6,3D0,E3,72D,2D,AC,417+2,47+1,4,2+3,33,2,C1F6+7,8+1,1363
DC=1E8D0+6 DE=59A,13,138C,16F4 E0=302E+1 E2=1D16D E4=5AE,12FB,54E+1,1233
E6=300+14,29+7,2,4+2,4+2,5,4,8+C,114+4,10B+3,2+2,3+5,7+1,2+1,3,15,4C+7,3C+1,3+4,2+1,78+6,3+3,2,3+1
E6=6EB+1,44,2+1,2+1,4,3,2+2,2,2,2,2+1,A1+6,2,23+3,2+8,2+2,2+4,6B,4+3,2B+4,6+D,3+1,2+1,2+2,7+2,2+1
E6=8FB+4,52,2+1,AA,584+1,3+1,3D6+2,47E,15D,DD,5E+7,34+4,7+1,5+1,3+4,2+3,9D,2+6,15D+2,8+1,5,14,4+1
E6=1DC0+1,2+6,2+1,5+24,6,3,2D2+1,3+3,4+1,5,6,2,7,BFF+2,EF+1F,7870,5+9,21+1,51+1,1EF+11,1BF,2+1,4+1
E6=AABE+1,2,535F+6,8+1,547+4,695,29,AD,23F+3,184+1,9C+2,2,36,2,17C+2,264+6,4+4,EA,56D2+6,664F+4,21+3
E6=1D242+2,DBC+6,2+10,3+6,2+1,2+4,65,A1+6,178,3E+3,200,455+5 E8=315,5,3E,1A9E,1236,1B4C0+1
E9=35C,3,3,1A9A EA=35D+1,2+1,1A6C F0=345")

structure Tables where
  /-- Sorted by code point. -/
  decompositions : List Decomposition
  classes : List (Nat × CodeRanges)

def tables : Tables := ⟨latinDecompositions ++ otherDecompositions, combiningClasses⟩

end UnitCheck.Composition
