import UnitCheck.Text.Rune
import UnitCheck.Text.Ranges

/-!
# Lower case

The simple lower-case mapping: one code point for one code point. Values of flags and settings are
compared in lower case, and some messages show them so.
-/

namespace UnitCheck

/-- A run of code points that all move by the same distance, every one or every other. -/
structure CaseRun where
  first : Nat
  last : Nat
  shift : Nat
  step : Nat

/-- Distances are written modulo this number, which lies above every code point. -/
def caseModulus : Nat := 0x200000

/-- Reads `first-last:shift/step`, where a missing last is the first and a missing step is one. -/
def CaseRun.ofWord (w : List Char) : CaseRun :=
  let (range, rest) := CodeRanges.cut ':' w
  let (first, last) := CodeRanges.pairOfWord range
  let (shift, step) := CodeRanges.cut '/' rest
  ⟨first, last, CodeRanges.number shift, if step.isEmpty then 1 else CodeRanges.number step⟩

/-- The lower-case mapping beyond the first 128 code points. -/
def lowerRuns : Array CaseRun := ((CodeRanges.words "
C0-D6:20 D8-E:20 100-2E:1/2 130:1FFF39 132-6:1/2 139-47:1/2 14A-76:1/2 178:1FFF87 179-D:1/2 181:D2
182-4:1/2 186:CE 187:1 189-A:CD 18B:1 18E:4F 18F:CA 190:CB 191:1 193:CD 194:CF 196:D3 197:D1 198:1
19C:D3 19D:D5 19F:D6 1A0-4:1/2 1A6:DA 1A7:1 1A9:DA 1AC:1 1AE:DA 1AF:1 1B1-2:D9 1B3-5:1/2 1B7:DB
1B8:1 1BC:1 1C4:2 1C5:1 1C7:2 1C8:1 1CA:2 1CB-DB:1/2 1DE-EE:1/2 1F1:2 1F2-4:1/2 1F6:1FFF9F
1F7:1FFFC8 1F8-21E:1/2 220:1FFF7E 222-32:1/2 23A:2A2B 23B:1 23D:1FFF5D 23E:2A28 241:1 243:1FFF3D
244:45 245:47 246-E:1/2 370-2:1/2 376:1 37F:74 386:26 388-A:25 38C:40 38E-F:3F 391-A1:20 3A3-B:20
3CF:8 3D8-EE:1/2 3F4:1FFFC4 3F7:1 3F9:1FFFF9 3FA:1 3FD-F:1FFF7E 400-F:50 410-2F:20 460-80:1/2
48A-BE:1/2 4C0:F 4C1-D:1/2 4D0-52E:1/2 531-56:30 10A0-C5:1C60 10C7:1C60 10CD:1C60 13A0-EF:97D0
13F0-5:8 1C90-BA:1FF440 1CBD-F:1FF440 1E00-94:1/2 1E9E:1FE241 1EA0-FE:1/2 1F08-F:1FFFF8
1F18-D:1FFFF8 1F28-F:1FFFF8 1F38-F:1FFFF8 1F48-D:1FFFF8 1F59-F:1FFFF8/2 1F68-F:1FFFF8 1F88-F:1FFFF8
1F98-F:1FFFF8 1FA8-F:1FFFF8 1FB8-9:1FFFF8 1FBA-B:1FFFB6 1FBC:1FFFF7 1FC8-B:1FFFAA 1FCC:1FFFF7
1FD8-9:1FFFF8 1FDA-B:1FFF9C 1FE8-9:1FFFF8 1FEA-B:1FFF90 1FEC:1FFFF9 1FF8-9:1FFF80 1FFA-B:1FFF82
1FFC:1FFFF7 2126:1FE2A3 212A:1FDF41 212B:1FDFBA 2132:1C 2160-F:10 2183:1 24B6-CF:1A 2C00-2F:30
2C60:1 2C62:1FD609 2C63:1FF11A 2C64:1FD619 2C67-B:1/2 2C6D:1FD5E4 2C6E:1FD603 2C6F:1FD5E1
2C70:1FD5E2 2C72:1 2C75:1 2C7E-F:1FD5C1 2C80-E2:1/2 2CEB-D:1/2 2CF2:1 A640-6C:1/2 A680-9A:1/2
A722-E:1/2 A732-6E:1/2 A779-B:1/2 A77D:1F75FC A77E-86:1/2 A78B:1 A78D:1F5AD8 A790-2:1/2 A796-A8:1/2
A7AA:1F5ABC A7AB:1F5AB1 A7AC:1F5AB5 A7AD:1F5ABF A7AE:1F5ABC A7B0:1F5AEE A7B1:1F5AD6 A7B2:1F5AEB
A7B3:3A0 A7B4-C2:1/2 A7C4:1FFFD0 A7C5:1F5ABD A7C6:1F75C8 A7C7-9:1/2 A7D0:1 A7D6-8:1/2 A7F5:1
FF21-3A:20 10400-27:28 104B0-D3:28 10570-A:27 1057C-8A:27 1058C-92:27 10594-5:27 10C80-B2:40
118A0-BF:20 16E40-5F:20 1E900-21:22").map CaseRun.ofWord).toArray

def lowerCode (n : Nat) : Nat :=
  if n < 0x80 then if 0x41 ≤ n && n ≤ 0x5A then n + 0x20 else n
  else match lowerRuns.find? fun r => r.first ≤ n && n ≤ r.last && (n - r.first) % r.step == 0 with
    | some r => (n + r.shift) % caseModulus
    | none => n

/-- A text with every code point in lower case. Outside ASCII, a stray byte becomes the replacement
character on the way. -/
def Text.lower (t : Text) : Text :=
  if t.isAscii then ⟨t.bytes.map fun b => if 0x41 ≤ b && b ≤ 0x5A then b + 0x20 else b⟩
  else Text.concat (t.runes.map fun r => Text.ofCode (lowerCode r.code))

end UnitCheck
