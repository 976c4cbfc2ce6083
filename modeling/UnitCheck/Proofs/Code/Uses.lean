import UnitCheck.Proofs.Code.Calls
import Mathlib.Algebra.BigOperators.Group.Finset.Piecewise
import Mathlib.Algebra.GroupWithZero.Nat

/-!
# Code in which every value is used once

A walk over lowered code computes a value after its operands. `Module.Meets vs ks` says that walking
over `vs` comes across the values `ks`, however often each of them: as often as it is one of `vs` or
an operand of a value that is met. The order plays no role, so walks can be put together by
appending.

The crux is that a walk over all of a module meets every value exactly once, if every value is used
once and operands come before the values that use them (`Meets.count_eq_one`). Values are counted
from the last one down: all values that could use a value have a greater number.
-/

namespace UnitCheck.Code.Module

open List

variable (m : Module) {roots : List ValueId}

def operandCount (ks : List ValueId) (w : ValueId) : Nat :=
  (ks.map fun u => (m.operands u).count w).sum

/-- The values that are met in walking over values. -/
def Meets (vs ks : List ValueId) : Prop :=
  ∀ w : ValueId, w.isValid = true → ks.count w = vs.count w + m.operandCount ks w

def Backward : Prop := ∀ v, ∀ w ∈ m.operands v, w.index < v.index

/-- Every value is used once: as an operand, or as one of `roots`. -/
def UsedOnce (roots : List ValueId) : Prop :=
  ∀ w : ValueId, w.isValid = true → w.index < m.values.size →
    roots.count w + ∑ u ∈ Finset.range m.values.size, (m.operands ⟨u⟩).count w = 1

variable {m} {vs vs' ks ks' : List ValueId} {u v w : ValueId}

theorem operandCount_cons :
    m.operandCount (v :: ks) w = (m.operands v).count w + m.operandCount ks w := rfl

theorem operandCount_append :
    m.operandCount (ks ++ ks') w = m.operandCount ks w + m.operandCount ks' w := by
  rw [operandCount, map_append, sum_append]
  rfl

theorem operandCount_pos (hu : u ∈ ks) (hw : w ∈ m.operands u) : 0 < m.operandCount ks w := by
  induction ks with
  | nil => cases hu
  | cons k ks ih =>
    rcases mem_cons.1 hu with rfl | hu
    · exact Nat.add_pos_left (count_pos_iff.2 hw) _
    · exact Nat.add_pos_right _ (ih hu)

theorem isValid_of_mem_operands (h : w ∈ m.operands v) :
    v.isValid = true ∧ v.index < m.values.size := by
  unfold operands value? at h
  split at h
  next hvalid =>
    refine ⟨hvalid, ?_⟩
    by_contra hlt
    rw [Array.getElem?_eq_none (Nat.not_lt.1 hlt)] at h
    cases h
  next => cases h

/-! ## Putting walks together -/

namespace Meets

theorem nil : m.Meets [] [] := fun _ _ => rfl

theorem append (h : m.Meets vs ks) (h' : m.Meets vs' ks') : m.Meets (vs ++ vs') (ks' ++ ks) := by
  intro w hw
  have hks := h w hw
  have hks' := h' w hw
  rw [count_append, count_append, operandCount_append]
  omega

theorem cons (h : m.Meets (m.operands v) ks) : m.Meets [v] (v :: ks) := by
  intro w hw
  have hks := h w hw
  rw [count_cons, operandCount_cons, count_cons, count_nil]
  omega

theorem of_absent (h : v.isValid = false) : m.Meets [v] [] := by
  intro w hw
  have hne : v ≠ w := by
    rintro rfl
    rw [h] at hw
    cases hw
  rw [count_singleton, if_neg (by simpa using hne)]
  rfl

theorem perm (h : m.Meets vs ks) (hperm : vs.Perm vs') : m.Meets vs' ks := fun w hw => by
  rw [← hperm.count_eq w]
  exact h w hw

theorem mem (h : m.Meets vs ks) (hv : v ∈ vs) (hvalid : v.isValid = true) : v ∈ ks := by
  have hcount := h v hvalid
  have hpos := count_pos_iff.2 hv
  exact count_pos_iff.1 (by omega)

theorem mem_operands (h : m.Meets vs ks) (hu : u ∈ ks) (hw : w ∈ m.operands u)
    (hvalid : w.isValid = true) : w ∈ ks := by
  have hcount := h w hvalid
  have hpos := operandCount_pos hu hw
  exact count_pos_iff.1 (by omega)

theorem mem_of_reaches (h : m.Meets vs ks) (hv : v ∈ vs) (hreach : m.Reaches v w)
    (hvalid : w.isValid = true) : w ∈ ks := by
  induction hreach with
  | refl => exact h.mem hv hvalid
  | tail _ hstep ih => exact h.mem_operands (ih (isValid_of_mem_operands hstep).1) hstep hvalid

end Meets

/-! ## Once -/

/-- The operands of values, counted by the number of times that each value is met. -/
theorem operandCount_eq_sum (ks : List ValueId) (w : ValueId) : m.operandCount ks w =
      ∑ u ∈ Finset.range m.values.size, ks.count ⟨u⟩ * (m.operands ⟨u⟩).count w := by
  induction ks with
  | nil => simp [operandCount]
  | cons k ks ih =>
    have hone : (m.operands k).count w = ∑ u ∈ .range m.values.size,
        if k.index = u then (m.operands ⟨u⟩).count w else 0 := by
      rw [Finset.sum_ite_eq]
      split
      next => rfl
      next hout =>
        refine count_eq_zero.2 fun hw => hout ?_
        exact Finset.mem_range.2 (isValid_of_mem_operands hw).2
    rw [operandCount_cons, ih, hone, ← Finset.sum_add_distrib]
    refine Finset.sum_congr rfl fun u _ => ?_
    rw [count_cons, Nat.add_mul, Nat.add_comm]
    obtain ⟨k⟩ := k
    by_cases hk : k = u <;> simp [hk]

theorem Meets.count_eq_one (h : m.Meets roots ks) (honce : m.UsedOnce roots)
    (hback : m.Backward) (hvalid : w.isValid = true) (hw : w.index < m.values.size) :
    ks.count w = 1 := by
  -- from the last value down: a value is used only by values with a greater number
  induction hn : m.values.size - w.index using Nat.strongRecOn generalizing w with
  | _ n ih =>
    rw [h w hvalid, operandCount_eq_sum, ← honce w hvalid hw]
    congr 1
    refine Finset.sum_congr rfl fun u hu => ?_
    by_cases hmem : w ∈ m.operands ⟨u⟩
    · have hlt := hback ⟨u⟩ w hmem
      have hu := Finset.mem_range.1 hu
      have hlt' : w.index < u := hlt
      rw [ih (m.values.size - u) (by omega) (isValid_of_mem_operands hmem).1 hu rfl, Nat.one_mul]
    · rw [count_eq_zero.2 hmem, Nat.mul_zero]

theorem Meets.nodup (h : m.Meets roots ks) (honce : m.UsedOnce roots)
    (hback : m.Backward) (hks : ∀ k ∈ ks, k.isValid = true ∧ k.index < m.values.size) :
    ks.Nodup := by
  rw [nodup_iff_count_le_one]
  intro k
  by_cases hk : k ∈ ks
  · exact Nat.le_of_eq (h.count_eq_one honce hback (hks k hk).1 (hks k hk).2)
  · rw [count_eq_zero.2 hk]
    exact Nat.zero_le 1

theorem Meets.usedOnce (h : m.Meets roots ks) (hnodup : ks.Nodup)
    (hall : ∀ w : ValueId, w.isValid = true → w.index < m.values.size → w ∈ ks) :
    m.UsedOnce roots := by
  intro w hvalid hw
  have hcount := h w hvalid
  rw [count_eq_one_of_mem hnodup (hall w hvalid hw), operandCount_eq_sum] at hcount
  rw [hcount]
  congr 1
  refine Finset.sum_congr rfl fun u hu => ?_
  by_cases hmem : w ∈ m.operands ⟨u⟩
  · have hu := hall ⟨u⟩ (isValid_of_mem_operands hmem).1 (Finset.mem_range.1 hu)
    rw [count_eq_one_of_mem hnodup hu, Nat.one_mul]
  · rw [count_eq_zero.2 hmem, Nat.mul_zero]

theorem UsedOnce.exists_root (h : m.UsedOnce roots) (hback : m.Backward)
    (hvalid : w.isValid = true) (hw : w.index < m.values.size) : ∃ v ∈ roots, m.Reaches v w := by
  -- from the last value down, as above
  induction hn : m.values.size - w.index using Nat.strongRecOn generalizing w with
  | _ n ih =>
    have hone := h w hvalid hw
    by_cases hroot : w ∈ roots
    · exact ⟨w, hroot, .refl⟩
    · rw [count_eq_zero.2 hroot, Nat.zero_add] at hone
      obtain ⟨u, hu, hcount⟩ := Finset.exists_ne_zero_of_sum_ne_zero (hone ▸ Nat.one_ne_zero)
      have hmem : w ∈ m.operands ⟨u⟩ := count_pos_iff.1 (Nat.pos_of_ne_zero hcount)
      have hlt : w.index < u := hback ⟨u⟩ w hmem
      have hu := Finset.mem_range.1 hu
      obtain ⟨v, hv, hreach⟩ :=
        ih (m.values.size - u) (by omega) (isValid_of_mem_operands hmem).1 hu rfl
      exact ⟨v, hv, hreach.tail hmem⟩

end UnitCheck.Code.Module
