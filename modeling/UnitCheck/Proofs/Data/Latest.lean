import UnitCheck.Id
import Mathlib.Tactic.Common

/-!
# The newest notes

Maps from identifiers are kept as notes, the newest first. `Id.latest` drops what was overwritten
and sorts the rest; what a note says for an identifier is the same before and behind it, and in
whatever order the rest is read (`Id.lookup_latest`, `Id.lookup_reverse_latest`).
-/

namespace UnitCheck.Id

open List

variable {k : IdKind} {α : Type} {notes : List (Id k × α)}

theorem latest_nil : latest ([] : List (Id k × α)) = [] := by simp [latest]

theorem mem_of_mem_latest {y : Id k × α} (h : y ∈ latest notes) : y ∈ notes := by
  obtain ⟨i, -, hi⟩ := mem_filterMap.1 h
  obtain ⟨a, ha, rfl⟩ := Option.map_eq_some_iff.1 hi
  obtain ⟨l, l', rfl, -⟩ := lookup_eq_some_iff.1 ha
  exact mem_append_right _ mem_cons_self

/-- Notes picked out for some identifiers say what they said. -/
theorem lookup_filterMap (notes : List (Id k × α)) (is : List (Id k)) (i : Id k) :
    (is.filterMap fun j => (notes.lookup j).map fun a => (j, a)).lookup i =
      if i ∈ is then notes.lookup i else none := by
  induction is with
  | nil => rfl
  | cons j is ih =>
    by_cases hij : i = j
    · subst hij
      rw [if_pos mem_cons_self]
      cases ha : notes.lookup i with
      | none =>
        rw [filterMap_cons_none (by rw [ha]; rfl), ih, ha]
        split <;> rfl
      | some a => rw [filterMap_cons_some (by rw [ha]; rfl), lookup_cons, beq_self_eq_true]
    · have hmem : i ∈ j :: is ↔ i ∈ is := by simp [hij]
      simp only [hmem, ← ih]
      cases ha : notes.lookup j with
      | none => rw [filterMap_cons_none (by rw [ha]; rfl)]
      | some a =>
        rw [filterMap_cons_some (by rw [ha]; rfl), lookup_cons, beq_eq_false_iff_ne.2 hij]

theorem mem_map_fst_iff {i : Id k} : i ∈ notes.map Prod.fst ↔ (notes.lookup i).isSome = true := by
  rw [lookup_isSome_iff, mem_map]
  exact exists_congr fun x => and_congr_right fun _ => by rw [beq_iff_eq, eq_comm]

theorem lookup_of_notMem {i : Id k} (h : i ∉ notes.map Prod.fst) : notes.lookup i = none := by
  rwa [mem_map_fst_iff, Option.not_isSome_iff_eq_none] at h

theorem lookup_latest (notes : List (Id k × α)) (i : Id k) :
    (latest notes).lookup i = notes.lookup i := by
  rw [latest, lookup_filterMap]
  simp only [mem_mergeSort, mem_eraseDups]
  split
  · rfl
  next h => exact (lookup_of_notMem h).symm

theorem lookup_reverse_latest (notes : List (Id k × α)) (i : Id k) :
    (latest notes).reverse.lookup i = notes.lookup i := by
  rw [latest, ← filterMap_reverse, lookup_filterMap]
  simp only [mem_reverse, mem_mergeSort, mem_eraseDups]
  split
  · rfl
  next h => exact (lookup_of_notMem h).symm

end UnitCheck.Id
