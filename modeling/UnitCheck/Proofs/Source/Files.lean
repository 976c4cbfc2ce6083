import UnitCheck.Source.Files
import UnitCheck.Proofs.Text.Path
import Mathlib.Algebra.Group.Nat.Defs
import Mathlib.Data.List.Induction

/-!
# Lines and places

A line stands between two line ends (`SourceFile.LineAt`). The lines of a file are its content cut
at the line ends, every offset lies in one of them, and its place is the number of that line and
what is left of the offset behind the start of the line, counted from one. So places are exact and
in the order of the offsets (`SourceFiles.resolve_exact`).
-/

namespace UnitCheck

open List

namespace Text

variable {b : UInt8}

/-- The first line of a text, and what follows its end. -/
theorem splitOn_go_cases (b : UInt8) (bs : List UInt8) : b ∉ bs ∧ splitOn.go b bs = [bs] ∨
    ∃ line rest, bs = line ++ b :: rest ∧ b ∉ line ∧
      splitOn.go b bs = line :: splitOn.go b rest := by
  induction bs with
  | nil => exact .inl ⟨not_mem_nil, rfl⟩
  | cons x xs ih =>
    by_cases hx : x = b
    · exact .inr ⟨[], xs, by rw [hx]; rfl, not_mem_nil, if_pos hx⟩
    · rw [splitOn.go, if_neg hx]
      obtain ⟨hmem, hgo⟩ | ⟨line, rest, rfl, hmem, hgo⟩ := ih
      · exact .inl ⟨by simp [hmem, Ne.symm hx], by rw [hgo]⟩
      · exact .inr ⟨x :: line, rest, rfl, by simp [hmem, Ne.symm hx], by rw [hgo]⟩

theorem length_splitOn_go (b : UInt8) (bs : List UInt8) :
    (splitOn.go b bs).length = bs.count b + 1 := by
  induction bs with
  | nil => rfl
  | cons x xs ih =>
    rw [splitOn.go]
    split
    next hx => simp [hx, ih]
    next hx =>
      obtain ⟨p, ps, hgo⟩ := exists_cons_of_ne_nil (splitOn_go_ne_nil b xs)
      rw [hgo] at ih ⊢
      simpa [hx] using ih

theorem join_splitOn (b : UInt8) (t : Text) : join ⟨[b]⟩ (t.splitOn b) = t := by
  obtain ⟨bs⟩ := t
  rw [splitOn]
  induction bs with
  | nil => rfl
  | cons x xs ih =>
    obtain ⟨p, ps, hgo⟩ := exists_cons_of_ne_nil (splitOn_go_ne_nil b xs)
    rw [hgo, map_cons] at ih
    rw [splitOn.go, hgo]
    split
    next hx =>
      rw [map_cons, map_cons, join_cons_cons, ih, hx]
      rfl
    next =>
      have hcons (ts : List Text) : join ⟨[b]⟩ (⟨x :: p⟩ :: ts) =
        ofByte x ++ join ⟨[b]⟩ (⟨p⟩ :: ts) := by
        cases ts with
        | nil => rfl
        | cons t ts => rfl
      rw [map_cons, hcons, ih]
      rfl

/-- What stands in front of and behind a line: as many line ends as there are lines before it. -/
theorem splitOn_go_getElem? {bs line : List UInt8} {n : Nat}
    (h : (splitOn.go b bs)[n]? = some line) : ∃ before after, bs = before ++ line ++ after ∧
      before.length = ((splitOn.go b bs).take n).foldr (·.length + 1 + ·) 0 ∧ before.count b = n ∧
      (before = [] ∨ ∃ bs, before = bs ++ [b]) ∧ b ∉ line ∧
        (after = [] ∨ ∃ bs, after = b :: bs) := by
  induction n generalizing bs with
  | zero =>
    obtain ⟨hmem, hgo⟩ | ⟨first, rest, rfl, hmem, hgo⟩ := splitOn_go_cases b bs
    · rw [hgo] at h
      cases h
      exact ⟨[], [], by simp, rfl, rfl, .inl rfl, hmem, .inl rfl⟩
    · rw [hgo] at h
      cases h
      exact ⟨[], b :: rest, rfl, rfl, rfl, .inl rfl, hmem, .inr ⟨rest, rfl⟩⟩
  | succ n ih =>
    obtain ⟨-, hgo⟩ | ⟨first, rest, rfl, hmem, hgo⟩ := splitOn_go_cases b bs
    · rw [hgo] at h
      cases h
    · rw [hgo] at h ⊢
      obtain ⟨before, after, hrest, hlength, hcount, hbefore, hline, hafter⟩ := ih h
      refine ⟨first ++ b :: before, after, by rw [hrest]; simp, ?_, ?_, .inr ?_, hline, hafter⟩
      · rw [take_succ_cons, foldr_cons, length_append, length_cons]
        omega
      · rw [count_append, count_eq_zero.2 hmem, count_cons_self]
        omega
      · obtain rfl | ⟨bs, rfl⟩ := hbefore
        · exact ⟨first, rfl⟩
        · exact ⟨first ++ b :: bs, by simp⟩

end Text

namespace SourceFile

variable {f : SourceFile} {line : Text} {n : Nat}

/-- Line `n` of a file, counted from one, stands at `start`: behind a line end, or at the start of
the file, and up to the next line end. -/
def LineAt (f : SourceFile) (n start : Nat) (line : Text) : Prop :=
  ∃ before after, f.content.bytes = before ++ line.bytes ++ after ∧ before.length = start ∧
    before.count newline + 1 = n ∧ (before = [] ∨ ∃ bs, before = bs ++ [newline]) ∧
    newline ∉ line.bytes ∧ (after = [] ∨ ∃ bs, after = newline :: bs)

/-- The lines of the file without their ends. -/
def lines (f : SourceFile) : List Text := f.content.splitOn newline

/-- Where line `n` starts, counted from zero: behind the lines before it and their ends. -/
def lineStart (f : SourceFile) (n : Nat) : Nat := (f.lines.take n).foldr (·.size + 1 + ·) 0

theorem lineEndsFrom_append (off : Nat) (as bs : List UInt8) :
    lineEndsFrom off (as ++ bs) = lineEndsFrom off as ++ lineEndsFrom (off + as.length) bs := by
  induction as generalizing off with
  | nil => rfl
  | cons a as ih =>
    have hoff : off + (a :: as).length = off + 1 + as.length := by
      rw [length_cons]
      omega
    rw [cons_append, lineEndsFrom, lineEndsFrom, ih, hoff]
    split <;> rfl

theorem length_lineEndsFrom (off : Nat) (bs : List UInt8) :
    (lineEndsFrom off bs).length = bs.count newline := by
  induction bs generalizing off with
  | nil => rfl
  | cons b bs ih =>
    rw [lineEndsFrom]
    split <;> simp_all

theorem mem_lineEndsFrom {off e : Nat} {bs : List UInt8} (h : e ∈ lineEndsFrom off bs) :
    off ≤ e ∧ e < off + bs.length := by
  induction bs generalizing off with
  | nil => cases h
  | cons b bs ih =>
    rw [length_cons]
    rw [lineEndsFrom] at h
    split at h
    · rcases mem_cons.1 h with rfl | h
      · omega
      · have := ih h
        omega
    · have := ih h
      omega

/-- The line ends of a file are those in front of a line and those behind it. -/
theorem lineEnds_eq {before line after : List UInt8}
    (hbytes : f.content.bytes = before ++ line ++ after) (hline : newline ∉ line) : f.lineEnds =
      lineEndsFrom 0 before ++ lineEndsFrom (before.length + line.length) after := by
  have hnone : lineEndsFrom (0 + before.length) line = [] :=
    eq_nil_of_length_eq_zero ((length_lineEndsFrom ..).trans (count_eq_zero.2 hline))
  rw [lineEnds, hbytes, lineEndsFrom_append, lineEndsFrom_append, hnone, append_nil, length_append,
    Nat.zero_add]

/-- The last line end in front of a line stands right before it. -/
theorem lastEnd_eq {before : List UInt8} (h : before = [] ∨ ∃ bs, before = bs ++ [newline]) :
    before = [] ∨
    ∃ k e, before.count newline = k + 1 ∧ (lineEndsFrom 0 before)[k]? = some e ∧
      before.length = e + 1 := by
  refine h.imp_right fun ⟨bs, hbs⟩ => ⟨bs.count newline, bs.length, ?_, ?_, ?_⟩
  · simp [hbs]
  · simp [hbs, lineEndsFrom_append, lineEndsFrom, ← length_lineEndsFrom 0 bs]
  · simp [hbs]

/-- What stands between two line ends is the line with that number. -/
theorem LineAt.line_eq {start : Nat} (h : f.LineAt n start line) : f.line n = line := by
  obtain ⟨before, after, hbytes, rfl, rfl, hbefore, hline, hafter⟩ := h
  have hends := lineEnds_eq hbytes hline
  have hcount := length_lineEndsFrom 0 before
  have hsize : f.content.size = before.length + line.bytes.length + after.length := by
    rw [Text.size, hbytes, length_append, length_append]
  have hstart : (if before.count newline + 1 = 1 then 0
      else (f.lineEnds[before.count newline + 1 - 2]?).getD 0 + 1) = before.length := by
    obtain rfl | ⟨k, e, hk, he, hlength⟩ := lastEnd_eq hbefore
    · rfl
    · rw [hk, if_neg (by omega), hends, show k + 1 + 1 - 2 = k by omega,
        getElem?_append_left (by omega), he, hlength]
      rfl
  have hstop : (f.lineEnds[before.count newline + 1 - 1]?).getD f.content.size =
      before.length + line.bytes.length := by
    rw [hends, Nat.add_sub_cancel, ← hcount, getElem?_append_right .refl, Nat.sub_self]
    obtain rfl | ⟨bs, rfl⟩ := hafter
    · exact hsize
    · rfl
  have hbetween : (f.content.bytes.take (before.length + line.bytes.length)).drop before.length =
    line.bytes := by
    rw [hbytes, ← length_append, take_left, drop_left]
  have hlast : before.count newline ≤ f.lineEnds.length := by
    rw [hends, length_append, hcount]
    exact Nat.le_add_right ..
  simp only [SourceFile.line, hstart, hstop, hbetween]
  rw [if_neg (by simpa using hlast)]
  split
  next hle =>
    have hnil : line.bytes = [] := eq_nil_of_length_eq_zero (by omega)
    exact (congrArg Text.mk hnil).symm
  next => rfl

/-- The search ends where the entries below `x` do. -/
theorem lowerBound_eq {as bs : List Nat} {x fuel lo hi : Nat} (has : ∀ a ∈ as, a < x)
    (hbs : ∀ b ∈ bs, ¬b < x)
    (hlo : lo ≤ as.length) (hhi : as.length ≤ hi) (hfuel : hi ≤ lo + fuel) :
    lowerBound (as ++ bs).toArray x fuel lo hi = as.length := by
  induction fuel generalizing lo hi with
  | zero => exact Nat.le_antisymm hlo (Nat.le_trans hhi hfuel)
  | succ fuel ih =>
    simp only [lowerBound, List.getElem?_toArray]
    split
    next hlt =>
      by_cases hmid : (lo + hi) / 2 < as.length
      · rw [if_pos]
        · exact ih hmid hhi (by omega)
        · rw [getElem?_append_left hmid, List.getElem?_eq_getElem hmid]
          simpa using has _ (getElem_mem hmid)
      · rw [if_neg]
        · exact ih hlo (Nat.le_of_not_lt hmid) (by omega)
        · rw [getElem?_append_right (Nat.le_of_not_lt hmid)]
          cases hb : bs[(lo + hi) / 2 - as.length]? with
          | none => simp
          | some b => simpa using hbs b (mem_of_getElem? hb)
    next => omega

theorem LineAt.position {start x : Nat} {off : UInt32} (h : f.LineAt n start line)
    (hx : x ≤ line.size) (hoff : off.toNat = start + x) (hmax : off.toNat + 1 < UInt32.size) :
    (f.position off).line.toNat = n ∧ (f.position off).column.toNat = x + 1 := by
  obtain ⟨before, after, hbytes, rfl, rfl, hbefore, hline, -⟩ := h
  have hends := lineEnds_eq hbytes hline
  have hcount := length_lineEndsFrom 0 before
  have hsearch : lowerBound f.lineEnds.toArray off.toNat f.lineEnds.length 0 f.lineEnds.length =
      before.count newline := by
    rw [hends, ← hcount]
    refine lowerBound_eq (fun e he => ?_) (fun e he => ?_) (Nat.zero_le _) (by simp) (by simp)
    · have := (mem_lineEndsFrom he).2
      omega
    · have := (mem_lineEndsFrom he).1
      rw [Text.size] at hx
      omega
  have hposition : f.position off =
      ⟨.ofNat (before.count newline + 1), off - .ofNat before.length + 1⟩ := by
    simp only [SourceFile.position, List.size_toArray, hsearch]
    obtain rfl | ⟨k, e, hk, he, hlength⟩ := lastEnd_eq hbefore
    · rfl
    · rw [hk, if_neg (by omega), hends, List.getElem?_toArray, Nat.add_sub_cancel,
        getElem?_append_left (by omega), he, hlength]
      simp
  have hsize : UInt32.size = 2 ^ 32 := rfl
  have hle : before.count newline ≤ before.length := count_le_length
  rw [hposition]
  refine ⟨UInt32.toNat_ofNat_of_lt' (by omega), ?_⟩
  have hsub : (off - .ofNat before.length).toNat = x := by
    have hofNat := UInt32.toNat_ofNat_of_lt' (n := before.length) (by omega)
    rw [UInt32.toNat_sub_of_le _ _ (UInt32.le_iff_toNat_le.2 (by omega))]
    omega
  rw [UInt32.toNat_add, hsub, UInt32.toNat_one, Nat.mod_eq_of_lt (by omega)]

theorem lineAt_of_lines (h : f.lines[n]? = some line) : f.LineAt (n + 1) (f.lineStart n) line := by
  obtain ⟨bs, hbs, rfl⟩ : ∃ bs, (Text.splitOn.go newline f.content.bytes)[n]? = some bs ∧
    ⟨bs⟩ = line := by
    simpa [lines, Text.splitOn] using h
  obtain ⟨before, after, hbytes, hlength, rfl, hrest⟩ := Text.splitOn_go_getElem? hbs
  refine ⟨before, after, hbytes, ?_, rfl, hrest⟩
  rw [hlength, lineStart, lines, Text.splitOn, ← map_take, foldr_map]
  rfl

theorem line_of_lines (h : f.lines[n]? = some line) : f.line (n + 1) = line :=
  (lineAt_of_lines h).line_eq

/-- The place of an offset inside of a line or at its end. -/
theorem position_eq (hline : f.lines[n]? = some line) {x : Nat} (hx : x ≤ line.size) {off : UInt32}
    (hoff : off.toNat = f.lineStart n + x) (hmax : off.toNat + 1 < UInt32.size) :
    (f.position off).line.toNat = n + 1 ∧ (f.position off).column.toNat = x + 1 :=
  (lineAt_of_lines hline).position hx hoff hmax

/-- An offset lies in the line behind the last line end before it. -/
theorem exists_lineAt {off : Nat} (h : off ≤ f.content.size) : ∃ start line,
    f.LineAt ((f.content.bytes.take off).count newline + 1) start line ∧
      start ≤ off ∧ off ≤ start + line.size := by
  obtain ⟨before, rest, hfront, hbefore, hrest⟩ : ∃ before rest, f.content.bytes.take off =
      before ++ rest ∧ (before = [] ∨ ∃ bs, before = bs ++ [newline]) ∧ newline ∉ rest := by
    induction f.content.bytes.take off using List.reverseRecOn with
    | nil => exact ⟨[], [], rfl, .inl rfl, not_mem_nil⟩
    | append_singleton bs b ih =>
      by_cases hb : b = newline
      · exact ⟨bs ++ [b], [], by simp, .inr ⟨bs, by rw [hb]⟩, not_mem_nil⟩
      · obtain ⟨before, rest, rfl, hbefore, hrest⟩ := ih
        exact ⟨before, rest ++ [b], by simp, hbefore, by simp [hrest, Ne.symm hb]⟩
  obtain ⟨line, after, hback, hline, hafter⟩ : ∃ line after, f.content.bytes.drop off = line ++
      after ∧ newline ∉ line ∧ (after = [] ∨ ∃ bs, after = newline :: bs) := by
    obtain ⟨hmem, -⟩ | ⟨line, rest, heq, hmem, -⟩ :=
      Text.splitOn_go_cases newline (f.content.bytes.drop off)
    · exact ⟨_, [], by simp, hmem, .inl rfl⟩
    · exact ⟨line, newline :: rest, heq, hmem, .inr ⟨rest, rfl⟩⟩
  have hoff : off = before.length + rest.length := by
    rw [← length_append, ← hfront, length_take]
    exact (Nat.min_eq_left h).symm
  refine ⟨before.length, ⟨rest ++ line⟩, ⟨before, after, ?_, rfl, ?_, hbefore, ?_, hafter⟩, ?_, ?_⟩
  · rw [← take_append_drop off f.content.bytes, hfront, hback, append_assoc, append_assoc,
      append_assoc]
  · rw [hfront, count_append, count_eq_zero.2 hrest]
  · simp [hrest, hline]
  · omega
  · simp only [Text.size, length_append]
    omega

/-- A place says where an offset is: in which line, and how far behind its start. -/
structure StandsAt (f : SourceFile) (off : Nat) (p : Position) : Prop where
  line : p.line.toNat = 1 + (f.content.bytes.take off).count newline
  column : ∃ start line, f.LineAt p.line.toNat start line ∧ start ≤ off ∧ off ≤ start + line.size ∧
    start + p.column.toNat = off + 1

theorem standsAt_position {off : UInt32} (hsize : f.content.size < 2 ^ 32 - 1)
    (hoff : off.toNat ≤ f.content.size) : f.StandsAt off.toNat (f.position off) := by
  obtain ⟨start, line, hline, hle, hend⟩ := exists_lineAt hoff
  have hsum : off.toNat = start + (off.toNat - start) := by omega
  obtain ⟨hnumber, hcolumn⟩ := hline.position (by omega) hsum (by rw [UInt32.size]; omega)
  exact ⟨by omega, start, line, hnumber ▸ hline, hle, hend, by omega⟩

/-- The number of a line tells where it starts. -/
theorem LineAt.start_le {start start' : Nat} {line' : Text} (h : f.LineAt n start line)
    (h' : f.LineAt n start' line') : start ≤ start' := by
  obtain ⟨before, after, hbytes, rfl, hcount, hbefore, -⟩ := h
  obtain ⟨before', after', hbytes', rfl, hcount', -⟩ := h'
  refine Nat.le_of_not_lt fun hlt => ?_
  have hprefix' : before' <+: f.content.bytes :=
    ⟨line'.bytes ++ after', by rw [hbytes', append_assoc]⟩
  obtain rfl | ⟨bs, rfl⟩ := hbefore
  · cases hlt
  · have hprefix : bs <+: f.content.bytes :=
      ⟨[newline] ++ line.bytes ++ after, by rw [hbytes]; simp⟩
    rw [length_append, length_singleton] at hlt
    have hle := (prefix_of_prefix_length_le hprefix' hprefix (by omega)).sublist.count_le newline
    rw [count_append, count_singleton_self] at hcount
    omega

end SourceFile

def Position.Before (p q : Position) : Prop :=
  p.line < q.line ∨ p.line = q.line ∧ p.column < q.column

theorem SourceFile.StandsAt.before {f : SourceFile} {a b : Nat} {p q : Position}
    (hp : f.StandsAt a p) (hq : f.StandsAt b q) (hlt : a < b) : p.Before q := by
  have hprefix : f.content.bytes.take a <+: f.content.bytes.take b :=
    take_prefix_take_left (by omega)
  have hcount := hprefix.sublist.count_le SourceFile.newline
  have hpline := hp.line
  have hqline := hq.line
  obtain ⟨start, line, hline, hle, hend, hcolumn⟩ := hp.column
  obtain ⟨start', line', hline', hle', hend', hcolumn'⟩ := hq.column
  rcases Nat.lt_or_eq_of_le hcount with hlines | hlines
  · exact .inl (UInt32.lt_iff_toNat_lt.2 (by omega))
  · refine .inr ⟨UInt32.toNat_inj.1 (by omega), UInt32.lt_iff_toNat_lt.2 ?_⟩
    have hnumber : q.line.toNat = p.line.toNat := by omega
    have hstart := (hnumber ▸ hline').start_le hline
    omega

namespace SourceFiles

open SourceFile (newline)

variable {fs : SourceFiles} {f : SourceFile} {id : UInt32}

/-- Places are exact: every offset of a file stands in its line, places are in the order of the
offsets, and lines are what stands between the line ends. -/
theorem resolve_exact (hfile : fs.get? id = some f) (hsize : f.content.size < 2 ^ 32 - 1) :
    (∀ start stop : UInt32, start.toNat ≤ f.content.size → stop.toNat ≤ f.content.size →
      f.StandsAt start.toNat (fs.resolve ⟨id, start, stop⟩).1 ∧
      f.StandsAt stop.toNat (fs.resolve ⟨id, start, stop⟩).2 ∧
      (start < stop → (fs.resolve ⟨id, start, stop⟩).1.Before (fs.resolve ⟨id, start, stop⟩).2)) ∧
    (∀ n, 1 ≤ n → n ≤ f.content.bytes.count newline + 1 → ∃ start, f.LineAt n start (f.line n)) ∧
    (∀ n, n = 0 ∨ f.content.bytes.count newline + 1 < n → f.line n = .empty) ∧
    Text.join ⟨[newline]⟩ ((List.range (f.content.bytes.count newline + 1)).map fun n =>
      f.line (n + 1)) = f.content := by
  have hlength : f.lines.length = f.content.bytes.count newline + 1 := by
    rw [SourceFile.lines, Text.splitOn, length_map, Text.length_splitOn_go]
  refine ⟨fun start stop hstart hstop => ?_, fun n hpos hle => ?_, ?_, ?_⟩
  · have hresolve : fs.resolve ⟨id, start, stop⟩ = (f.position start, f.position stop) := by
      simp only [resolve, hfile]
    rw [hresolve]
    have hp := SourceFile.standsAt_position hsize hstart
    have hq := SourceFile.standsAt_position hsize hstop
    exact ⟨hp, hq, fun hlt => hp.before hq (UInt32.lt_iff_toNat_lt.1 hlt)⟩
  · obtain ⟨n, rfl⟩ := Nat.exists_eq_add_of_le' hpos
    have hn : f.lines[n]? = some _ := List.getElem?_eq_getElem (by omega)
    rw [SourceFile.line_of_lines hn]
    exact ⟨_, SourceFile.lineAt_of_lines hn⟩
  · intro n hn
    have hends : f.lineEnds.length = f.content.bytes.count newline :=
      SourceFile.length_lineEndsFrom ..
    exact if_pos (by simpa [hends] using hn)
  · have hlines : (List.range f.lines.length).map (fun n => f.line (n + 1)) = f.lines :=
      ext_getElem (by simp) fun n _ hn => by
        simp [SourceFile.line_of_lines (List.getElem?_eq_getElem hn)]
    rw [← hlength, hlines]
    exact Text.join_splitOn newline f.content

/-- The second line is empty, and the last one has no end. -/
theorem resolve_exact_unterminated :
    let f : SourceFile := ⟨"a", "x\n\nyz"⟩
    f.StandsAt 1 (SourceFiles.resolve ⟨#[f]⟩ ⟨1, 1, 4⟩).1 ∧
      (SourceFiles.resolve ⟨#[f]⟩ ⟨1, 1, 4⟩).2 = ⟨3, 2⟩ := by
  intro f
  have hfile : SourceFiles.get? ⟨#[f]⟩ 1 = some f := rfl
  exact ⟨((resolve_exact hfile (by decide)).1 1 4 (by decide) (by decide)).1, by decide⟩

end SourceFiles

end UnitCheck
