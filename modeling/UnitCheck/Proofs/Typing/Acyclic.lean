import UnitCheck.Proofs.Typing.Form
import Mathlib.Order.WellFounded

/-!
# Bindings never turn in a circle

A type leads to its parts, and a variable leads to what it stands for (`Env.Leads`). In a good
environment this is well-founded: parts come before their type in the table, and what a variable
stands for has a meaning, which is a finite term. So following variables comes to an end, no
variable is met again below itself, and the report that bindings turn in a circle is never made.

Since bindings are never taken back either, what a type is written out as is final once no variable
is left in it.
-/

namespace UnitCheck.Typing

variable {e : Env} {i j k : TypeId} {v : VarId} {u : TypeTerm}

namespace Env

/-- One step into a type: to a part of it, or from a variable to what it stands for. -/
inductive Leads (e : Env) (i : TypeId) : TypeId → Prop
  | part {p : TypeId} : p ∈ (e.types.view i).parts → Leads e i p
  | bound {v : VarId} {j : TypeId} : e.types.view i = .var v → e.binding? v = some j → Leads e i j

theorem Leads.of_var (h : e.Leads i j) (hv : e.types.view i = .var v) : e.binding? v = some j := by
  cases h with
  | part hp =>
    rw [hv] at hp
    cases hp
  | bound hv' hbound =>
    cases hv.symm.trans hv'
    exact hbound

theorem Leads.mem_parts (h : e.Leads i j) (hv : ∀ v, e.types.view i ≠ .var v) :
    j ∈ (e.types.view i).parts := by
  cases h with
  | part hp => exact hp
  | bound hview => exact absurd hview (hv _)

theorem acc_of_denotes (h : e.Denotes i u) : Acc (fun j i => e.Leads i j) i := by
  induction h with
  | missing =>
    refine .intro _ fun j hj => ?_
    cases hj.mem_parts (by simp)
  | atom hview =>
    refine .intro _ fun j hj => ?_
    have hmem := hj.mem_parts (by simp [hview])
    rw [hview] at hmem
    cases hmem
  | wrap hview _ ih =>
    refine .intro _ fun j hj => ?_
    have hmem := hj.mem_parts (by simp [hview])
    rw [hview] at hmem
    rw [List.mem_singleton.1 hmem]
    exact ih
  | fn hview hlen _ _ ihps ihr =>
    refine .intro _ fun j hj => ?_
    have hmem := hj.mem_parts (by simp [hview])
    rw [hview] at hmem
    obtain rfl | hmem := List.mem_cons.1 hmem
    · exact ihr
    · obtain ⟨n, hn, rfl⟩ := List.mem_iff_getElem.1 hmem
      exact ihps n _ _ (List.getElem?_eq_getElem hn) (List.getElem?_eq_getElem (hlen ▸ hn))
  | free hview hfree =>
    refine .intro _ fun j hj => ?_
    cases hfree.symm.trans (hj.of_var hview)
  | bound hview hbound _ ih =>
    refine .intro _ fun j hj => ?_
    cases hbound.symm.trans (hj.of_var hview)
    exact ih

theorem Good.wellFounded_leads (good : e.Good) : WellFounded fun j i => e.Leads i j := by
  refine ⟨fun i => ?_⟩
  -- along parts the position falls, and behind the first binding there is a meaning
  generalize hn : i.index = n
  induction n using Nat.strongRecOn generalizing i with
  | _ n ih =>
    refine .intro i fun j hj => ?_
    cases hj with
    | part hp => exact ih j.index (hn ▸ good.types.parts_lt hp) j rfl
    | bound _ hbound =>
      obtain ⟨u, hu⟩ := (good.bound hbound).meaning
      exact acc_of_denotes hu

/-- No type of a good environment is met again below itself, under whatever modifier. -/
theorem Good.not_transGen_var (good : e.Good) (hi : e.types.view i = .var v)
    (hk : e.types.view k = .var v) : ¬ Relation.TransGen e.Leads i k := by
  intro hreach
  -- what the variable stands for is met after it, and again after its second visit
  obtain ⟨j, hij, hjk⟩ := Relation.TransGen.head'_iff.1 hreach
  have hkj : e.Leads k j := .bound hk (hij.of_var hi)
  have hloop : Relation.TransGen e.Leads k k := .head' hkj hjk
  have hswap : Relation.TransGen (fun j i => e.Leads i j) k k := Relation.transGen_swap.1 hloop
  exact good.wellFounded_leads.transGen.asymmetric k k hswap hswap

end Env

open Env

theorem faults_resolve (good : e.Good) (i : TypeId) : (resolve i e).2.faults = e.faults := by
  obtain ⟨vs, k, hway⟩ := good.exists_way i
  cases hlook : e.types.lookup? i with
  | none => rw [resolve_eq_of_none hlook]
  | some outer =>
    rw [hway.resolve_eq good hlook]
    split <;> rfl

/-- The invariant of bindings. In every environment that inference can reach, following any type
ends at a type that stands for nothing else, without a report; no circle was ever reported; no
variable is met again below itself; no variable was bound twice. And whatever is done later, bound
variables keep what they stand for, and a type in whose written-out form no variable is left keeps
that form. -/
theorem bindings_stay_acyclic (he : e.Reachable) :
    (∀ i, ∃ vs k, e.Way i vs k ∧ e.follow (e.bindings.length + 1) [] i = .ok k ∧
      (resolve i e).2.faults = e.faults) ∧
    (∀ f ∈ e.faults.toList, ¬ f.IsCycle) ∧
    (∀ i k v, e.types.view i = .var v → e.types.view k = .var v → ¬ Relation.TransGen e.Leads i k) ∧
    (e.bindings.map Prod.fst).Nodup ∧
    ∀ f, e.Steps f → (∀ v j, e.binding? v = some j → f.binding? v = some j) ∧
      ∀ i, e.Over i → (e.expandedForm i).isSettled = true →
        f.expandedForm i = e.expandedForm i := by
  have good := he.good
  refine ⟨fun i => ?_, good.faults, fun i k v hi hk => good.not_transGen_var hi hk, good.nodup,
    fun f hf => ?_⟩
  · obtain ⟨vs, k, hway⟩ := good.exists_way i
    exact ⟨vs, k, hway, hway.follow_all good, faults_resolve good i⟩
  · obtain ⟨good', hext⟩ := hf.good_ext good
    refine ⟨fun v j => hext.binding?, fun i hi hsettled => ?_⟩
    rw [expandedForm_eq good hi] at hsettled ⊢
    rw [expandedForm_eq good' (hext.isOver good hi)]
    exact formAt_extends good good' hext hi (.inr hsettled)

/-- A variable that was made to stand for the optional integers keeps that form when another one
fails to become the optional type of itself and literals are settled. -/
theorem bindings_stay_acyclic_optional :
    let e₁ := (fresh .zero (fresh .zero (Env.initial .initial)).2).2
    let e₂ := { e₁ with types := (e₁.types.intern ⟨.optional Builtin.int, .default⟩).1 }
    let e₃ := { e₂ with types := (e₂.types.intern ⟨.optional 23, .default⟩).1 }
    let e := (unify 22 24 .zero e₃).2
    let f := (applyDefaults (unify 23 25 .zero e).2).2
    (unify 23 25 .zero e).1.isMismatch = true ∧ (e.expandedForm 22).isSettled = true ∧
      f.expandedForm 22 = e.expandedForm 22 := by
  intro e₁ e₂ e₃ e f
  have hvar : e.types.view 23 = .var 2 := by decide +kernel
  have hover₃ : e₃.Over 22 ∧ e₃.Over 24 := by
    refine ⟨.var (v := 1) (by decide +kernel) rfl (by decide +kernel), ?_⟩
    have hopt : e₃.types.view 24 = .wrap .optional Builtin.int := by decide +kernel
    exact .wrap hopt (.atom (a := .int 0) (by decide +kernel))
  have hreach : e.Reachable := by
    refine ⟨.initial, .initial, .step (.step (.step (.step (.step .refl (.fresh .zero))
      (.fresh .zero)) (.types ?_)) (.types ?_)) (.unify _ _ _ hover₃.1 hover₃.2)⟩
    · exact .intern _ _ (by decide) (by decide +kernel) (by decide)
    · exact .intern _ _ (by decide) (by decide +kernel) (by decide)
  have hover : e.Over 22 := .var (v := 1) (by decide +kernel) rfl (by decide +kernel)
  have hover' : e.Over 23 := .var hvar rfl (by decide +kernel)
  have hsteps : e.Steps f := by
    refine .step (.step .refl (.unify _ _ _ hover' ?_)) .applyDefaults
    have hopt : e.types.view 25 = .wrap .optional 23 := by decide +kernel
    exact .wrap hopt hover'
  have hsettled : (e.expandedForm 22).isSettled = true := by decide +kernel
  refine ⟨by decide +kernel, hsettled, ?_⟩
  exact ((bindings_stay_acyclic hreach).2.2.2.2 f hsteps).2 22 hover hsettled

end UnitCheck.Typing
