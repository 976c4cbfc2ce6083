import UnitCheck.Fault.Render
import UnitCheck.Proofs.Source.Files

/-!
# Marks under a line

Where the marks of a readable report stand, for a line of printable characters and tabs. The cells
that a text takes are counted on its bytes (`expandBytes`). The text in front of the marks starts in
the first cell of the line, so the marks start where they should. The marked text is measured as if
it started there, too: its own tabs are too wide or too narrow unless it starts at a tab stop
(`length_expandBytes_add`). -/

namespace UnitCheck

open List Nat

/-! ## Cells -/

namespace Render

def isPlain (b : UInt8) : Bool := 0x20 ≤ b && b < 0x7F

/-- What a line may hold: printable characters and tabs. -/
def isShown (b : UInt8) : Bool := b == 9 || isPlain b

variable {b : UInt8} {bs : List UInt8}

theorem toNat_of_isPlain (h : isPlain b = true) : 0x20 ≤ b.toNat ∧ b.toNat < 0x7F := by
  simpa [isPlain, UInt8.le_iff_toNat_le, UInt8.lt_iff_toNat_lt] using h

theorem runesOf_cons {bs : List UInt8} (h : b.toNat < 0x80) :
    Text.runesOf (b :: bs) = ⟨b.toNat, [b]⟩ :: Text.runesOf bs := by
  rw [Text.runesOf.eq_def]
  exact if_pos (UInt8.lt_iff_toNat_lt.2 h)

theorem width_ofCode_of_isPlain (h : isPlain b = true) : Width.ofCode b.toNat = 1 := by
  obtain ⟨hle, hlt⟩ := toNat_of_isPlain h
  rw [Width.ofCode, if_neg (by omega), if_neg (by simp; omega), if_pos (by omega)]

theorem cluster_of_isPlain (h : isPlain b = true) :
    Cluster.joinOfPiece [b] = .other ∧ Width.ofCluster ⟨[b]⟩ = 1 := by
  obtain ⟨hle, hlt⟩ := toNat_of_isPlain h
  have hrunes : Text.runesOf [b] = [⟨b.toNat, [b]⟩] := runesOf_cons (by omega)
  constructor
  · simp only [Cluster.joinOfPiece, hrunes, Cluster.joinOf]
    rw [if_neg (by simp; omega), if_neg (by simp; omega), if_pos (by simp; omega)]
  · rw [Width.ofCluster, Text.runes, hrunes, map_singleton, width_ofCode_of_isPlain h]
    rfl

theorem cut_of_isPlain (h : ∀ b ∈ bs, isPlain b = true) :
    Cluster.cut bs.length bs = (bs.map ([·]), []) := by
  induction bs with
  | nil => rfl
  | cons b bs ih =>
    obtain ⟨hb, hbs⟩ := forall_mem_cons.1 h
    have hone : Cluster.announced b = 1 :=
      if_pos (UInt8.lt_iff_toNat_lt.2 (Nat.lt_trans (toNat_of_isPlain hb).2 (by decide)))
    simp [Cluster.cut, hone, ih hbs]

theorem group_of_isPlain (h : ∀ b ∈ bs, isPlain b = true) (b : UInt8) :
    Cluster.group [] (bs.map ([·])) (.start .other) [b] = (b :: bs).map ([·]) := by
  induction bs generalizing b with
  | nil => rfl
  | cons b' bs ih =>
    obtain ⟨hb, hbs⟩ := forall_mem_cons.1 h
    rw [map_cons, Cluster.group, (cluster_of_isPlain hb).1, ih hbs]
    rfl

theorem width_of_isPlain (h : ∀ b ∈ bs, isPlain b = true) : (Text.mk bs).width = bs.length := by
  have hclusters : Cluster.clusters ⟨bs⟩ = bs.map fun b => ⟨[b]⟩ := by
    rw [Cluster.clusters, Text.size, cut_of_isPlain h]
    cases bs with
    | nil => rfl
    | cons b bs =>
      obtain ⟨hb, hbs⟩ := forall_mem_cons.1 h
      simp only [map_cons, (cluster_of_isPlain hb).1, group_of_isPlain hbs]
      rw [map_map]
      rfl
  have hones : bs.map (Width.ofCluster ∘ fun b => ⟨[b]⟩) = bs.map fun _ => 1 :=
    map_congr_left fun b hb => (cluster_of_isPlain (h b hb)).2
  rw [Text.width, hclusters, map_map, hones]
  show (bs.map fun _ => 1).sum = bs.length
  simp

/-! ## Tabs -/

/-- The bytes of a line with tabs expanded, from column `col` on. -/
def expandBytes : Nat → List UInt8 → List UInt8
  | _, [] => []
  | col, b :: bs =>
    if b = 9 then
      List.replicate (tabWidth - col % tabWidth) 32 ++
        expandBytes (col + (tabWidth - col % tabWidth)) bs
    else b :: expandBytes (col + 1) bs

theorem expandBytes_append (col : Nat) (as bs : List UInt8) : expandBytes col (as ++ bs) =
    expandBytes col as ++ expandBytes (col + (expandBytes col as).length) bs := by
  induction as generalizing col with
  | nil => rfl
  | cons a as ih =>
    rw [cons_append, expandBytes, expandBytes]
    split
    · simp only [ih, append_assoc, length_append, length_replicate, add_assoc]
    · simp only [ih, cons_append, length_cons, add_assoc, add_comm 1]

variable {col : Nat}

theorem expandBytes_of_notMem (h : 9 ∉ bs) : expandBytes col bs = bs := by
  induction bs generalizing col with
  | nil => rfl
  | cons b bs ih =>
    have hne : b ≠ 9 := fun hb => h (hb ▸ mem_cons_self)
    rw [expandBytes, if_neg hne, ih fun hbs => h (mem_cons_of_mem _ hbs)]

theorem isPlain_of_mem_expandBytes (h : ∀ b ∈ bs, isShown b = true) :
    ∀ b ∈ expandBytes col bs, isPlain b = true := by
  induction bs generalizing col with
  | nil => nofun
  | cons b bs ih =>
    obtain ⟨hb, hbs⟩ := forall_mem_cons.1 h
    rw [expandBytes]
    split
    next => exact forall_mem_append.2 ⟨fun b hb => (eq_of_mem_replicate hb) ▸ rfl, ih hbs⟩
    next hne =>
      refine forall_mem_cons.2 ⟨?_, ih hbs⟩
      simpa [isShown, hne] using hb

/-- Only the place between two tab stops counts. -/
theorem expandBytes_congr {col' : Nat} (h : col % tabWidth = col' % tabWidth) :
    expandBytes col bs = expandBytes col' bs := by
  induction bs generalizing col col' with
  | nil => rfl
  | cons b bs ih =>
    rw [expandBytes, expandBytes]
    split
    · rw [h, ih (add_mod_eq_add_mod_right _ h)]
    · rw [ih (add_mod_eq_add_mod_right 1 h)]

/-- Behind its first tab a text goes on from a tab stop, wherever it starts. Up to there, the cells
it takes depend on where it starts. -/
theorem length_expandBytes_add (h : 9 ∈ bs) (col col' : Nat) :
    (expandBytes col bs).length + (col + bs.idxOf 9) % tabWidth =
      (expandBytes col' bs).length + (col' + bs.idxOf 9) % tabWidth := by
  induction bs generalizing col col' with
  | nil => cases h
  | cons b bs ih =>
    by_cases hb : b = 9
    · have hstop (col : Nat) : expandBytes (col + (tabWidth - col % tabWidth)) bs =
        expandBytes 0 bs :=
        expandBytes_congr (by simp only [tabWidth]; omega)
      rw [expandBytes, expandBytes, if_pos hb, if_pos hb, hstop, hstop, hb, idxOf_cons_self]
      simp only [length_append, length_replicate, tabWidth]
      omega
    · have hidx : (b :: bs).idxOf 9 = bs.idxOf 9 + 1 := idxOf_cons_ne _ hb
      have hrest := ih ((mem_cons.1 h).resolve_left (Ne.symm hb)) (col + 1) (col' + 1)
      simp only [expandBytes, if_neg hb, length_cons, hidx]
      rw [add_assoc col, add_assoc col', add_comm 1] at hrest
      omega

theorem expandRunes_eq (h : ∀ b ∈ bs, isShown b = true) :
    (expandRunes col (Text.runesOf bs)).flatMap Text.bytes = expandBytes col bs := by
  have hcode : ∀ n < 128, Text.ofCode n = ⟨[.ofNat n]⟩ := by decide +kernel
  have hblanks (n : Nat) : (Text.times n " ").bytes = .replicate n 32 := by
    simp only [Text.times, Text.concat]
    induction n with
    | zero => rfl
    | succ n ih =>
      rw [replicate_succ, flatMap_cons, ih]
      rfl
  induction bs generalizing col with
  | nil => rfl
  | cons b bs ih =>
    obtain ⟨hb, hbs⟩ := forall_mem_cons.1 h
    by_cases htab : b = 9
    · subst htab
      have hrunes : Text.runesOf (9 :: bs) = _ := runesOf_cons (by decide)
      rw [hrunes, expandBytes, ← ih hbs, ← hblanks]
      rfl
    · have hplain : isPlain b = true := by simpa [isShown, htab] using hb
      obtain ⟨hle, hlt⟩ := toNat_of_isPlain hplain
      have hcode : Text.ofCode b.toNat = ⟨[b]⟩ := (hcode b.toNat (by omega)).trans (by simp)
      rw [runesOf_cons (by omega), expandRunes, if_neg (by simp; omega), expandBytes,
        if_neg htab, ← ih hbs]
      simp only [hcode, width_ofCode_of_isPlain hplain]
      rfl

theorem expandTabs_eq (h : ∀ b ∈ bs, isShown b = true) : expandTabs ⟨bs⟩ = ⟨expandBytes 0 bs⟩ := by
  rw [expandTabs]
  split
  next => exact congrArg Text.mk (expandRunes_eq h)
  next htab => rw [expandBytes_of_notMem (by simpa using htab)]

/-- The cells of a line are the bytes of the line with its tabs expanded. -/
theorem width_expandTabs (h : ∀ b ∈ bs, isShown b = true) :
    (expandTabs ⟨bs⟩).width = (expandBytes 0 bs).length := by
  rw [expandTabs_eq h, width_of_isPlain (isPlain_of_mem_expandBytes h)]

/-! ## The marks -/

/-- A line of the source as it is shown, with its number. -/
def shownLine (opts : Options) (gutter n : Nat) (line : Text) : Text :=
  " " ++ Style.blue.paint opts.color ((Text.ofNat n).padLeft gutter 32 ++ " |") ++ " " ++
    expandTabs line ++ "\n"

/-- What is shown under a line: `count` marks behind `pad` blanks. -/
def markLine (opts : Options) (gutter pad count : Nat) : Text :=
  " " ++ Style.blue.paint opts.color (Text.times gutter " " ++ " |") ++ " " ++ Text.times pad " " ++
    Style.red.paint opts.color (markText count) ++ "\n"

variable {files : Option SourceFiles} {s : Span} {f : SourceFile}

/-- A snippet shows the line on which a span starts, with marks under it. -/
theorem snippet_eq (opts : Options) (hf : fileOf files s = some f)
    (hcontent : f.content.isEmpty = false) : let n := (f.position s.start).line.toNat
    let m := marks (f.line n) (extentOf (f.position s.start) (f.position s.stop) (f.line n).size)
    ∃ above below gutter, snippet files opts s =
      above ++ [shownLine opts gutter n (f.line n), markLine opts gutter m.1 m.2] ++ below := by
  simp only [snippet, hf, hcontent]
  generalize (f.position s.start).line.toNat = n
  -- the line is one of those that are shown
  have hmem : n ∈ List.range' (n - min opts.context (n - 1))
      (n + opts.context + 1 - (n - min opts.context (n - 1))) := by
    rw [mem_range'_1]
    omega
  obtain ⟨before, after, hrange⟩ := append_of_mem hmem
  rw [hrange, flatMap_append, flatMap_cons, ← append_assoc]
  refine ⟨_, _, (Text.ofNat (n + opts.context)).size, congrArg (· ++ _) (congrArg (_ ++ ·) ?_)⟩
  rw [if_neg (by simp), if_neg (by simp)]
  rfl

theorem marks_eq {line : Text} (hshown : ∀ b ∈ line.bytes, isShown b = true) {i j : Nat}
    (hlt : i < j)
    (hle : j ≤ line.size) : marks line ⟨i, j⟩ = ((expandBytes 0 (line.bytes.take i)).length,
      (expandBytes 0 ((line.bytes.take j).drop i)).length) := by
  have htake : (expandTabs ⟨line.bytes.take i⟩).width = _ :=
    width_expandTabs fun b hb => hshown b (mem_of_mem_take hb)
  have hdrop : (expandTabs ⟨(line.bytes.take j).drop i⟩).width = _ :=
    width_expandTabs fun b hb => hshown b (mem_of_mem_take (mem_of_mem_drop hb))
  -- something is marked, and it takes a cell at least
  have hpos : 1 ≤ (expandBytes 0 ((line.bytes.take j).drop i)).length := by
    cases hbs : (line.bytes.take j).drop i with
    | nil =>
      have := drop_eq_nil_iff.1 hbs
      rw [length_take_of_le hle] at this
      omega
    | cons b bs =>
      rw [expandBytes]
      split <;> simp [tabWidth]
  simp only [marks, Text.take, Text.drop, htake, hdrop, Nat.max_eq_left hpos]

/-- **Marks start where the marked text starts.** Let a line of a file hold printable characters and
tabs only, and a span cover its bytes from `i` up to `j`. The line is shown with marks under it.
They are indented by the cells of the text before the marked one, which the shown line starts with.
They end where the marked text ends if no tab is marked or the marked text starts at a tab stop, and
only then: otherwise they are too many or too few by the cells that the first marked tab takes less
or more than it would if the line started with the marked text. -/
theorem snippet_marks (opts : Options) (hf : fileOf files s = some f) {n : Nat} {line : Text}
    (hline : f.lines[n]? = some line) (hshown : ∀ b ∈ line.bytes, isShown b = true) {i j : Nat}
    (hlt : i < j) (hle : j ≤ line.size) (hstart : s.start.toNat = f.lineStart n + i)
    (hstop : s.stop.toNat = f.lineStart n + j) (hmax : s.stop.toNat + 1 < UInt32.size) :
    ∃ above below gutter pad count rest, snippet files opts s =
        above ++ [shownLine opts gutter (n + 1) line, markLine opts gutter pad count] ++ below ∧
      expandTabs line = expandTabs (line.take i) ++ rest ∧ pad = (expandTabs (line.take i)).width ∧
      let marked := ((line.take j).drop i).bytes
      let stop := (expandTabs (line.take j)).width
      (9 ∈ marked → pad + count + marked.idxOf 9 % tabWidth =
        stop + (pad + marked.idxOf 9) % tabWidth) ∧
      (pad + count = stop ↔ 9 ∉ marked ∨ pad % tabWidth = 0) := by
  have hsize : i ≤ line.size := by omega
  obtain ⟨hline₁, hcol₁⟩ := f.position_eq hline hsize hstart (by omega)
  obtain ⟨hline₂, hcol₂⟩ := f.position_eq hline hle hstop hmax
  have hcontent : f.content.isEmpty = false := by
    obtain ⟨b, hb⟩ := exists_mem_of_length_pos (Nat.lt_of_lt_of_le (Nat.zero_lt_of_lt hlt) hle)
    have hmem := (Text.mem_of_mem_splitOn (mem_of_getElem? hline) hb).1
    exact isEmpty_eq_false_iff.2 (ne_nil_of_mem hmem)
  have hextent : extentOf (f.position s.start) (f.position s.stop) line.size = ⟨i, j⟩ := by
    have hsame : (f.position s.stop).line = (f.position s.start).line :=
      UInt32.toNat_inj.1 (hline₂.trans hline₁.symm)
    simp only [extentOf, hcol₁, hcol₂, hsame, BEq.rfl, if_true]
    congr 1 <;> omega
  obtain ⟨above, below, gutter, hsnippet⟩ := snippet_eq opts hf hcontent
  rw [hline₁, SourceFile.line_of_lines hline, hextent, marks_eq hshown hlt hle] at hsnippet
  have hbefore : ∀ b ∈ line.bytes.take i, isShown b = true :=
    fun b hb => hshown b (mem_of_mem_take hb)
  have hsplit : line.bytes.take j = line.bytes.take i ++ (line.bytes.take j).drop i := by
    have := take_append_drop i (line.bytes.take j)
    rwa [take_take, Nat.min_eq_left (Nat.le_of_lt hlt), eq_comm] at this
  -- the shown text up to the end of the marks, in one piece
  have hstop : (expandTabs (line.take j)).width = (expandBytes 0 (line.bytes.take i)).length +
      (expandBytes (expandBytes 0 (line.bytes.take i)).length
        ((line.bytes.take j).drop i)).length := by
    rw [Text.take, width_expandTabs fun b hb => hshown b (mem_of_mem_take hb), hsplit,
      expandBytes_append, length_append, zero_add, ← hsplit]
  refine ⟨above, below, gutter, _, _, ⟨expandBytes (expandBytes 0 (line.bytes.take i)).length
    (line.bytes.drop i)⟩, hsnippet, ?_, (width_expandTabs hbefore).symm, ?_⟩
  · have hwhole := expandBytes_append 0 (line.bytes.take i) (line.bytes.drop i)
    rw [take_append_drop, zero_add] at hwhole
    exact (expandTabs_eq hshown).trans (by rw [Text.take, expandTabs_eq hbefore, hwhole]; rfl)
  · rw [hstop]
    simp only [Text.take, Text.drop]
    generalize (line.bytes.take j).drop i = marked
    generalize (expandBytes 0 (line.bytes.take i)).length = pad
    by_cases htab : 9 ∈ marked
    · have hadd := length_expandBytes_add htab 0 pad
      rw [zero_add] at hadd
      refine ⟨fun _ => by omega, ?_⟩
      simp only [htab, not_true_eq_false, false_or]
      simp only [tabWidth] at hadd ⊢
      omega
    · simp [htab, expandBytes_of_notMem htab]

def indented : SourceFile := ⟨"a", "x\n\tif a\t("⟩

/-- The marked text has a tab, and starts at a tab stop. -/
theorem snippet_marks_indented : ∃ above below gutter pad count,
    snippet (some ⟨#[indented]⟩) default ⟨1, 3, 9⟩ =
      above ++ [shownLine default gutter 2 "\tif a\t(", markLine default gutter pad count] ++
    below ∧ pad = 4 ∧ pad + count = (expandTabs ("\tif a\t(" : Text)).width := by
  have hf : fileOf (some ⟨#[indented]⟩) ⟨1, 3, 9⟩ = some indented := rfl
  have hline : indented.lines[1]? = some ("\tif a\t(" : Text) := by decide +kernel
  obtain ⟨above, below, gutter, pad, count, _, hsnippet, -, hpad, -, hstop⟩ :=
    snippet_marks (i := 1) (j := 7) default hf hline (by decide +kernel) (by decide)
      (by decide +kernel)
      (by decide +kernel) (by decide +kernel) (by decide)
  have hfour : pad = 4 := hpad.trans (by decide +kernel)
  exact ⟨above, below, gutter, pad, count, hsnippet, hfour, hstop.2 (.inr (hfour ▸ rfl))⟩

/-- A marked tab that does not start at a tab stop gets a mark too many. -/
theorem marks_pass_tab : snippet (some ⟨#[⟨"a", "a\tb"⟩]⟩) default ⟨1, 1, 2⟩ =
      [shownLine default 1 1 "a\tb", markLine default 1 1 4] ∧
    (expandTabs ("a\t" : Text)).width = 4 := by
  constructor <;> decide +kernel

end Render

end UnitCheck
