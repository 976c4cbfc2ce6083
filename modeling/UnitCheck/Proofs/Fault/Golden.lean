import UnitCheck.Fault.Golden
import Mathlib.Data.List.Lex
import Mathlib.Data.List.Perm.Basic

/-!
# Sorted reports

Lines are compared by six keys in turn, which is the dictionary order of the keys
(`GoldenLine.le_iff`). Two lines with the same keys are the same line. So there is one way to sort
them, and a report does not depend on the order in which faults and their notes come
(`Golden.report_of_shuffled`). -/

namespace UnitCheck

open List

/-! ## The order of lines -/

namespace Text

/-- The bytes of a text as numbers, which are in order as the text is. -/
def order (t : Text) : List Nat := t.bytes.map UInt8.toNat

theorem order_injective : Function.Injective order := fun _ _ h =>
  congrArg mk (map_injective_iff.2 (fun _ _ => UInt8.toNat_inj.1) h)

theorem cmp_iff {a b : Text} :
    (cmp a b = .lt ↔ a.order < b.order) ∧ (cmp a b = .eq ↔ a.order = b.order) := by
  obtain ⟨as⟩ := a
  obtain ⟨bs⟩ := b
  unfold cmp order
  fun_induction cmp.go as bs with
  | case1 | case2 | case3 => simp
  | case4 x xs y ys hlt =>
    rw [UInt8.lt_iff_toNat_lt] at hlt
    simp [cons_lt_cons_iff, hlt, hlt.ne]
  | case5 x xs y ys hle hlt =>
    rw [UInt8.lt_iff_toNat_lt] at hle hlt
    simp [cons_lt_cons_iff, hle, hlt.ne']
  | case6 x xs y ys hle hge ih =>
    rw [UInt8.lt_iff_toNat_lt] at hle hge
    have heq : x.toNat = y.toNat := by omega
    simp [heq, ih]

end Text

namespace GoldenLine

/-- What lines are sorted by: path, line, column, severity, code and message. -/
def key (g : GoldenLine) : List (List Nat) :=
  [g.path.order, [g.line.toNat], [g.column.toNat], g.severity.order, g.code.order, g.message.order]

theorem key_injective : Function.Injective key := by
  rintro ⟨severity, code, path, line, column, message⟩ ⟨_, _, _, _, _, _⟩ h
  simp only [key, List.cons.injEq, and_true, Text.order_injective.eq_iff, UInt32.toNat_inj] at h
  obtain ⟨rfl, rfl, rfl, rfl, rfl, rfl⟩ := h
  rfl

theorem isLE_then_iff {o p : Ordering} {x y : List Nat} {xs ys : List (List Nat)}
    (hlt : o = .lt ↔ x < y)
    (heq : o = .eq ↔ x = y) (h : p.isLE = true ↔ xs ≤ ys) :
    (o.then p).isLE = true ↔ x :: xs ≤ y :: ys := by
  rw [← not_lt, cons_lt_cons_iff]
  cases o with
  | lt =>
    have hxy := hlt.1 rfl
    simp [hxy.not_gt, hxy.ne']
  | eq =>
    obtain rfl := heq.1 rfl
    simpa using h
  | gt =>
    have hyx : y < x := (not_lt.1 fun h => nomatch hlt.2 h).lt_of_ne' fun h => nomatch heq.2 h
    simp [hyx]

theorem le_iff {a b : GoldenLine} : a.le b = true ↔ a.key ≤ b.key := by
  have htext (s t : Text) {p : Ordering} {xs ys : List (List Nat)} :
      (p.isLE = true ↔ xs ≤ ys) →
        (((Text.cmp s t).then p).isLE = true ↔ s.order :: xs ≤ t.order :: ys) :=
    isLE_then_iff Text.cmp_iff.1 Text.cmp_iff.2
  have hnumber (m n : Nat) {p : Ordering} {xs ys : List (List Nat)} :
      (p.isLE = true ↔ xs ≤ ys) → (((compare m n).then p).isLE = true ↔ [m] :: xs ≤ [n] :: ys) :=
    isLE_then_iff (by simp [Nat.compare_eq_lt, cons_lt_cons_iff]) (by simp)
  have hmessage : (Text.cmp a.message b.message).isLE = true ↔
    [a.message.order] ≤ [b.message.order] := by
    have hnil : Ordering.eq.isLE = true ↔ ([] : List (List Nat)) ≤ [] := by simp
    simpa using htext a.message b.message hnil
  exact htext _ _ (hnumber _ _ (hnumber _ _ (htext _ _ (htext _ _ hmessage))))

end GoldenLine

/-! ## Reports -/

/-- The same fault with its notes in another order. -/
structure Fault.Reordered (f g : Fault) : Prop where
  severity : f.severity = g.severity
  code : f.code = g.code
  message : f.message = g.message
  span : f.span = g.span
  notes : f.notes.Perm g.notes

namespace Golden

variable (unit : Text) (files : SourceFiles) (notes : Bool) {f g : Fault} {fs gs : List Fault}

/-- The same faults in another order, and the notes of each in another order, too. -/
def Shuffled (fs gs : List Fault) : Prop := ∃ hs, fs.Perm hs ∧ List.Forall₂ Fault.Reordered hs gs

theorem linesOf_perm (h : f.Reordered g) :
    (linesOf unit files notes f).Perm (linesOf unit files notes g) := by
  rw [linesOf, h.severity, h.code, h.message, h.span]
  refine .cons _ ?_
  cases notes
  · exact .refl _
  · exact h.notes.map _

theorem flatMap_linesOf_perm (h : Shuffled fs gs) :
    (fs.flatMap (linesOf unit files notes)).Perm (gs.flatMap (linesOf unit files notes)) := by
  obtain ⟨hs, hperm, hsame⟩ := h
  refine (hperm.flatMap_right _).trans ?_
  clear hperm
  induction hsame with
  | nil => exact .refl _
  | cons hfg _ ih => exact (linesOf_perm unit files notes hfg).append ih

theorem pairwise_key_mergeSort (lines : List GoldenLine) :
    (lines.mergeSort GoldenLine.le).Pairwise (·.key ≤ ·.key) := by
  have htrans (a b c : GoldenLine) (hab : a.le b = true) (hbc : b.le c = true) : a.le c = true :=
    GoldenLine.le_iff.2 ((GoldenLine.le_iff.1 hab).trans (GoldenLine.le_iff.1 hbc))
  have htotal (a b : GoldenLine) : (a.le b || b.le a) = true := by
    simpa [GoldenLine.le_iff] using le_total a.key b.key
  exact (pairwise_mergeSort htrans htotal lines).imp GoldenLine.le_iff.1

/-- A report is the same for the same faults in any order: every fault, and every note if asked for,
has its line, and the lines stand in the order of their keys. -/
theorem report_of_shuffled (h : Shuffled fs gs) :
    report unit fs files notes = report unit gs files notes ∧
    ∃ lines : List GoldenLine, report unit fs files notes =
      Text.join "\n" (lines.map GoldenLine.toText) ∧ lines.Pairwise (·.key ≤ ·.key) ∧
      lines.Perm (fs.map (fun f => lineAt unit files f.span f.severity.label f.code.id f.message) ++
        if notes then fs.flatMap fun f =>
          f.notes.map fun n => lineAt unit files n.span "note" f.code.id n.message
        else []) := by
  refine ⟨?_, _, rfl, pairwise_key_mergeSort _, (mergeSort_perm _ _).trans ?_⟩
  · rw [report, report]
    congr 2
    refine List.Perm.eq_of_pairwise (fun a b _ _ hab hba =>
      GoldenLine.key_injective (hab.antisymm hba))
      (pairwise_key_mergeSort _) (pairwise_key_mergeSort _) ?_
    exact ((mergeSort_perm _ _).trans (flatMap_linesOf_perm unit files notes h)).trans
      (mergeSort_perm _ _).symm
  · cases notes with
    | false => simpa using .of_eq map_eq_flatMap.symm
    | true => exact (map_append_flatMap_perm fs _ _).symm

/-- A note in a file without content and a warning without a file, found in either order. -/
theorem report_of_shuffled_pair :
    let files : SourceFiles := ⟨#[⟨"./b", ""⟩]⟩
    let f : Fault := ⟨.error, default, "x\ny", ⟨1, 0, 0⟩, [⟨⟨1, 0, 0⟩, "p"⟩, ⟨⟨0, 0, 0⟩, "q"⟩]⟩
    let f' : Fault := ⟨.error, default, "x\ny", ⟨1, 0, 0⟩, [⟨⟨0, 0, 0⟩, "q"⟩, ⟨⟨1, 0, 0⟩, "p"⟩]⟩
    let g : Fault := ⟨.warning, default, "z", ⟨0, 0, 0⟩, []⟩
    report "u" [f, g] files true = report "u" [g, f'] files true := by
  intro files f f' g
  have hf : f.Reordered f' := ⟨rfl, rfl, rfl, rfl, .swap ..⟩
  have hg : g.Reordered g := ⟨rfl, rfl, rfl, rfl, .refl _⟩
  exact (report_of_shuffled "u" files true ⟨[g, f], .swap .., .cons hg (.cons hf .nil)⟩).1

end Golden

end UnitCheck
