import UnitCheck.Typing.Unify
import UnitCheck.Proofs.Ty.Denotes
import Mathlib.Data.List.Perm.Subperm

/-!
# The meaning of types during inference

An environment gives every type a meaning: the term that is left when variables are replaced by what
they stand for (`Env.Denotes`). An environment is `Good` if its table is well-formed, its variables
stand for types of the table, each for one only, and no type contains itself, so that every type has
a meaning and no circle was ever reported. Later
environments extend earlier ones (`Env.Extends`): the table grows, no binding is taken back, and a
variable that stands for a number literal keeps doing so, with a kind that only narrows.

The crux is that following a variable is harmless: `resolve` returns a type with the same meaning,
now and in every later environment. The number of bindings bounds the length of the way, since a way
that visits a variable twice would never end and its start would have no meaning.
-/

namespace UnitCheck

open List

/-- The report that bindings turn in a circle. -/
def Fault.IsCycle (f : Fault) : Prop :=
  f.code = .internalError ∧ ∃ rest : Text,
    f.message = "substitution cycle through variable " ++ rest

namespace Typing

/-! ## Reasoning about computations -/

/-- The computation, started in `e`, ends with a result and an environment that satisfy `Q`. -/
def Yields {α : Type} (a : Solve α) (e : Env) (Q : α → Env → Prop) : Prop := Q (a e).1 (a e).2

namespace Yields

variable {α β : Type} {a : Solve α} {f : α → Solve β} {e : Env}

variable {x : α} {P : α → Env → Prop} {Q : β → Env → Prop}

theorem pure {Q : α → Env → Prop} (h : Q x e) : Yields (Pure.pure x) e Q := h

theorem bind (ha : Yields a e P) (hf : ∀ x e', P x e' → Yields (f x) e' Q) : Yields (a >>= f) e Q :=
  hf _ _ ha

theorem step {e' : Env} (ha : a e = (x, e')) (hf : Yields (f x) e' Q) : Yields (a >>= f) e Q := by
  show Yields (f (a e).1) (a e).2 Q
  rw [ha]
  exact hf

theorem get_bind {f : Env → Solve β} (h : Yields (f e) e Q) : Yields (MonadState.get >>= f) e Q := h

theorem mono {Q : α → Env → Prop} (ha : Yields a e P) (h : ∀ x e', P x e' → Q x e') :
    Yields a e Q := h _ _ ha

end Yields

/-! ## Environments -/

namespace Env

abbrev Denotes (e : Env) : TypeId → TypeTerm → Prop := UnitCheck.Denotes e.types e.binding?

abbrev Over (e : Env) : TypeId → Prop := e.types.Over e.count

def unresolved (e : Env) (v : VarId) : Fault :=
  (Fault.error .unresolvedType (e.origin v) "type was not resolved").withNote (e.origin v)
    "add a type annotation"

/-- Each variable that nothing settles was reported once, and no other. -/
structure Once (e : Env) : Prop where
  nodup : e.unsettled.Nodup
  le_count : ∀ v ∈ e.unsettled, v.index ≤ e.count
  reports : e.faults.toList.filter (fun f => f.code = .unresolvedType) =
    e.unsettled.reverse.map e.unresolved

/-- `e'` knows all that `e` knows. -/
structure Extends (e e' : Env) : Prop where
  types : e.types.Extends e'.types
  count : e.count ≤ e'.count
  binding? : ∀ {v : VarId} {j : TypeId}, e.binding? v = some j → e'.binding? v = some j
  literal? : ∀ {v : VarId} {k : Kind}, e.literal? v = some k →
    ∃ k', e'.literal? v = some k' ∧ k'.precedence ≤ k.precedence
  faults : e.faults.toList <+: e'.faults.toList
  once : e.Once → e'.Once

/-- `e'` differs from `e` in the types that are in the table, and in what has been reported. -/
structure Grows (e e' : Env) : Prop where
  types : e.types.Extends e'.types
  count : e'.count = e.count
  bindings : e'.bindings = e.bindings
  literals : e'.literals = e.literals
  unsettled : e.unsettled ⊆ e'.unsettled
  faults : e.faults.toList <+: e'.faults.toList
  once : e.Once → e'.Once

/-- A variable that was handed out may stand for a type of the table that has no modifier and has a
meaning. -/
structure Bound (e : Env) (v : VarId) (j : TypeId) : Prop where
  valid : v.isValid
  le_count : v.index ≤ e.count
  ne_zero : j ≠ 0
  isOver : e.Over j
  unmodified : ∃ s : Shape, e.types.lookup? j = some (.ofShape s)
  meaning : ∃ u, e.Denotes j u

/-- What a literal of kind `k` may stand for: a number that it fits, a literal whose kind is no
wider, or the type of what could not be typed. -/
inductive LiteralTarget (e : Env) (k : Kind) (j : TypeId) : Prop
  | number {a : Atom} : e.types.view j = .atom a → k.fits a.kind → LiteralTarget e k j
  | literal {w : VarId} {k' : Kind} : e.types.view j = .var w → e.literal? w = some k' →
      k'.precedence ≤ k.precedence → LiteralTarget e k j
  | error : e.types.view j = .atom (.plain .error) → LiteralTarget e k j

/-- A variable that was handed out may stand for a literal, and then for no other type than a
literal may become. -/
structure Literal (e : Env) (v : VarId) (k : Kind) : Prop where
  valid : v.isValid
  le_count : v.index ≤ e.count
  untyped : k.isUntyped
  target : ∀ {j : TypeId}, e.binding? v = some j → e.LiteralTarget k j

/-- The table is well-formed and variables stand for types of it that have a meaning. No variable
was bound twice, and no circle of bindings was reported. -/
structure Good (e : Env) : Prop where
  types : e.types.WellFormed
  bound : ∀ {v : VarId} {j : TypeId}, e.binding? v = some j → e.Bound v j
  literal : ∀ {v : VarId} {k : Kind}, e.literal? v = some k → e.Literal v k
  nodup : (e.bindings.map Prod.fst).Nodup
  faults : ∀ f ∈ e.faults.toList, ¬ f.IsCycle

variable {e e' e'' : Env} {i j : TypeId} {u : TypeTerm}

/-- In a good environment every type has a meaning: variables are the only way in which a type might
contain itself. -/
theorem Good.total (good : e.Good) (hi : e.Over i) : ∃ u, e.Denotes i u := by
  induction hi with
  | none => exact ⟨_, .missing⟩
  | atom h => exact ⟨_, .atom h⟩
  | wrap h _ ih =>
    obtain ⟨u, hu⟩ := ih
    exact ⟨_, .wrap h hu⟩
  | fn h _ _ ihps ihr => exact Denotes.exists_fn h ihps ihr
  | @var i v h =>
    cases hv : e.binding? v with
    | none => exact ⟨_, .free h hv⟩
    | some j =>
      obtain ⟨u, hu⟩ := (good.bound hv).meaning
      exact ⟨u, .bound h hv hu⟩

theorem Extends.refl (e : Env) : e.Extends e :=
  ⟨.refl _, .refl, id, fun hv => ⟨_, hv, .refl⟩, prefix_rfl, id⟩

theorem Extends.trans (h : e.Extends e') (h' : e'.Extends e'') : e.Extends e'' where
  types := h.types.trans h'.types
  count := Nat.le_trans h.count h'.count
  binding? hv := h'.binding? (h.binding? hv)
  literal? hv := by
    obtain ⟨k', hv', hle⟩ := h.literal? hv
    obtain ⟨k'', hv'', hle'⟩ := h'.literal? hv'
    exact ⟨k'', hv'', Nat.le_trans hle' hle⟩
  faults := h.faults.trans h'.faults
  once := h'.once ∘ h.once

theorem Extends.isOver (h : e.Extends e') (good : e.Good) (hi : e.Over i) : e'.Over i :=
  hi.mono good.types h.types h.count

namespace Grows

theorem refl (e : Env) : e.Grows e :=
  ⟨.refl _, rfl, rfl, rfl, .refl _, prefix_rfl, id⟩

section

variable (h : e.Grows e')
include h

theorem trans (h' : e'.Grows e'') : e.Grows e'' :=
  ⟨h.types.trans h'.types, h'.count.trans h.count, h'.bindings.trans h.bindings,
    h'.literals.trans h.literals, List.Subset.trans h.unsettled h'.unsettled,
    h.faults.trans h'.faults, h'.once ∘ h.once⟩

theorem binding?_eq (v : VarId) : e'.binding? v = e.binding? v := by
  unfold binding?
  rw [h.bindings]

theorem literal?_eq (v : VarId) : e'.literal? v = e.literal? v := by
  unfold literal?
  rw [h.literals]

theorem toExtends : e.Extends e' :=
  ⟨h.types, Nat.le_of_eq h.count.symm, (h.binding?_eq _).trans,
    fun hv => ⟨_, (h.literal?_eq _).trans hv, .refl⟩, h.faults, h.once⟩

theorem isOver (good : e.Good) (hi : e.Over i) : e'.Over i :=
  h.toExtends.isOver good hi

theorem denotes (good : e.Good) (hi : e.Denotes i u) : e'.Denotes i u := by
  have hsame : e'.binding? = e.binding? := funext h.binding?_eq
  unfold Denotes
  rw [hsame]
  exact hi.mono good.types h.types

theorem denotes_iff (good : e.Good) (hi : e.Over i) : e'.Denotes i u ↔ e.Denotes i u := by
  refine ⟨fun hu => ?_, h.denotes good⟩
  obtain ⟨u', hu'⟩ := good.total hi
  rwa [hu.functional (h.denotes good hu')]

end

end Grows

variable {t : TypeTable} {v : VarId}

theorem grows_withTypes (ht : e.types.Extends t) : e.Grows { e with types := t } :=
  ⟨ht, rfl, rfl, rfl, .refl _, prefix_rfl, fun h => ⟨h.nodup, h.le_count, h.reports⟩⟩

theorem LiteralTarget.mono {k : Kind} (h : e.LiteralTarget k j) (good : e.Good)
    (hext : e.Extends e') : e'.LiteralTarget k j := by
  have same {w : View} (hw : e.types.view j = w) (hne : w ≠ .missing) : e'.types.view j = w :=
    (hext.types.view_eq_of_ne good.types (hw.symm ▸ hne)).trans hw
  cases h with
  | number h hfits => exact .number (same h nofun) hfits
  | literal h hw hle =>
    obtain ⟨k', hw', hle'⟩ := hext.literal? hw
    exact .literal (same h nofun) hw' (Nat.le_trans hle' hle)
  | error h => exact .error (same h nofun)

theorem Good.withTypes (good : e.Good) (wf : t.WellFormed)
    (ht : e.types.Extends t) : Good { e with types := t } where
  types := wf
  bound hv := by
    obtain ⟨hvalid, hle, hne, hover, ⟨s, hs⟩, u, hu⟩ := good.bound hv
    exact ⟨hvalid, hle, hne, hover.mono good.types ht .refl, ⟨s, ht.lookup? hs⟩, u,
      hu.mono good.types ht⟩
  literal hv := by
    obtain ⟨hvalid, hle, huntyped, htarget⟩ := good.literal hv
    exact ⟨hvalid, hle, huntyped, fun hj => (htarget hj).mono good (grows_withTypes ht).toExtends⟩
  nodup := good.nodup
  faults := good.faults

/-- Being good depends on types, variables and reports of circles only, and more variables do no
harm. -/
theorem Good.congr (good : e.Good) (htypes : e'.types = e.types) (hcount : e.count ≤ e'.count)
    (hbindings : e'.bindings = e.bindings) (hliterals : e'.literals = e.literals)
    (hfaults : ∀ f ∈ e'.faults.toList, ¬ f.IsCycle) : e'.Good := by
  obtain ⟨types, count, bindings, origins, literals, unsettled, faults⟩ := e
  subst htypes hbindings hliterals
  refine ⟨good.types, fun hv => ?_, fun hv => ?_, good.nodup, hfaults⟩
  · obtain ⟨hvalid, hle, hne, hover, hplain, hu⟩ := good.bound hv
    exact ⟨hvalid, Nat.le_trans hle hcount, hne, hover.mono good.types (.refl _) hcount, hplain, hu⟩
  · obtain ⟨hvalid, hle, huntyped, htarget⟩ := good.literal hv
    refine ⟨hvalid, Nat.le_trans hle hcount, huntyped, fun hj => ?_⟩
    cases htarget hj with
    | number h hfits => exact .number h hfits
    | literal h hw hle => exact .literal h hw hle
    | error h => exact .error h

theorem view_eq_var_iff : t.view i = .var v ↔ (t.describe i).shape = .var v := by
  unfold TypeTable.describe
  constructor
  · intro h
    obtain ⟨m, hlook⟩ := TypeTable.lookup?_of_view_var h
    rw [hlook]
    rfl
  · intro h
    cases hlook : t.lookup? i with
    | none =>
      rw [hlook] at h
      cases h
    | some ty =>
      obtain ⟨s, m⟩ := ty
      rw [hlook] at h
      cases h
      exact TypeTable.view_of_var hlook

theorem varOf?_eq_some_iff : e.varOf? i = some v ↔ e.types.view i = .var v ∧ v.isValid := by
  rw [view_eq_var_iff, varOf?]
  constructor
  · intro h
    split at h
    next w hshape =>
      split at h
      next hvalid =>
        cases h
        exact ⟨hshape, hvalid⟩
      next => cases h
    next => cases h
  · rintro ⟨hshape, hvalid⟩
    simp [hshape, hvalid]

/-! ## Following variables -/

/-- The way from a type over the variables `vs`, each bound to the next type, to one that stands for
nothing else. -/
inductive Way (e : Env) : TypeId → List VarId → TypeId → Prop
  | stop {i : TypeId} : (∀ v, e.types.view i = .var v → e.binding? v = none) → Way e i [] i
  | step {i j k : TypeId} {v : VarId} {vs : List VarId} : e.types.view i = .var v →
      e.binding? v = some j → Way e j vs k → Way e i (v :: vs) k

namespace Way

variable {k k' : TypeId} {vs vs' : List VarId} {v : VarId}

theorem exists_of_denotes (h : e.Denotes i u) : ∃ vs k, Way e i vs k := by
  induction h with
  | missing => exact ⟨[], _, .stop fun v hv => nomatch hv⟩
  | atom h | wrap h | fn h => exact ⟨[], _, .stop fun v hv => by simp [h] at hv⟩
  | free h hfree =>
    refine ⟨[], _, .stop fun v hv => ?_⟩
    cases h.symm.trans hv
    exact hfree
  | bound h hbound _ ih =>
    obtain ⟨vs, k, hway⟩ := ih
    exact ⟨_ :: vs, k, .step h hbound hway⟩

section

variable (h : Way e i vs k)
include h

theorem functional (h' : Way e i vs' k') : vs = vs' := by
  induction h generalizing vs' with
  | stop hstop =>
    cases h' with
    | stop => rfl
    | step hv hbound => cases (hstop _ hv).symm.trans hbound
  | step hv hbound _ ih =>
    cases h' with
    | stop hstop => cases (hstop _ hv).symm.trans hbound
    | step hv' hbound' hway' =>
      cases hv.symm.trans hv'
      cases hbound.symm.trans hbound'
      rw [ih hway']

theorem exists_shorter (hv : v ∈ vs) :
    ∃ j vs', e.binding? v = some j ∧ Way e j vs' k ∧ vs'.length < vs.length := by
  induction h with
  | stop => cases hv
  | @step i j k w vs hw hbound hway ih =>
    obtain rfl | htail := mem_cons.1 hv
    · exact ⟨j, vs, hbound, hway, .refl⟩
    · obtain ⟨j', vs', hbound', hway', hlt⟩ := ih htail
      exact ⟨j', vs', hbound', hway', Nat.lt_succ_of_lt hlt⟩

theorem nodup : vs.Nodup := by
  induction h with
  | stop => exact nodup_nil
  | step hv hbound hway ih =>
    refine nodup_cons.2 ⟨fun hmem => ?_, ih⟩
    -- a second visit would make the way from there shorter than itself
    obtain ⟨j', vs', hbound', hway', hlt⟩ := hway.exists_shorter hmem
    cases hbound.symm.trans hbound'
    rw [hway'.functional hway] at hlt
    exact Nat.lt_irrefl _ hlt

theorem length_le : vs.length ≤ e.bindings.length := by
  have hkeys : vs ⊆ e.bindings.map Prod.fst := by
    intro v hv
    obtain ⟨j, -, hbound, -⟩ := h.exists_shorter hv
    obtain ⟨l1, l2, heq, -⟩ := lookup_eq_some_iff.1 hbound
    simp [heq]
  simpa using (subperm_of_subset h.nodup hkeys).length_le

theorem isOver (good : e.Good) (hi : e.Over i) : e.Over k := by
  induction h with
  | stop => exact hi
  | step _ hbound _ ih => exact ih (good.bound hbound).isOver

theorem ne_zero (good : e.Good) (hi : i ≠ 0) : k ≠ 0 := by
  induction h with
  | stop => exact hi
  | step _ hbound _ ih => exact ih (good.bound hbound).ne_zero

theorem stops : e.types.view k = .var v → e.binding? v = none := by
  induction h with
  | stop hstop => exact hstop v
  | step _ _ _ ih => exact ih

theorem denotes_iff (good : e.Good) (hi : e.Over i) (hext : e.Extends e') :
    e'.Denotes i u ↔ e'.Denotes k u := by
  induction h with
  | stop => exact .rfl
  | @step i j k v vs hv hbound _ ih =>
    rw [← ih (good.bound hbound).isOver]
    have hv' := (hi.view_eq good.types hext.types).trans hv
    have hbound' := hext.binding? hbound
    constructor
    · intro hu
      cases hu with
      | missing => cases hv
      | bound h hb hj =>
        cases h.symm.trans hv'
        cases hb.symm.trans hbound'
        exact hj
      | free h hfree =>
        cases h.symm.trans hv'
        cases hfree.symm.trans hbound'
      | atom h | wrap h | fn h => cases h.symm.trans hv'
    · exact .bound hv' hbound'

theorem follow_eq (good : e.Good) {n : Nat} {seen : List VarId}
    (hn : vs.length < n) (hseen : ∀ v ∈ vs, v ∉ seen) : e.follow n seen i = .ok k := by
  have hnodup := h.nodup
  induction h generalizing n seen with
  | @stop i hstop =>
    obtain ⟨n, rfl⟩ : ∃ m, n = m + 1 := ⟨n - 1, by omega⟩
    unfold follow
    cases hvar : e.varOf? i with
    | none => rfl
    | some v => simp [hstop v (varOf?_eq_some_iff.1 hvar).1]
  | @step i j k v vs hv hbound _ ih =>
    obtain ⟨n, rfl⟩ : ∃ m, n = m + 1 := ⟨n - 1, by omega⟩
    obtain ⟨hfresh, hnodup⟩ := nodup_cons.1 hnodup
    have hunseen : seen.contains v = false := by
      simpa using hseen v mem_cons_self
    unfold follow
    have hvar : e.varOf? i = some v := varOf?_eq_some_iff.2 ⟨hv, (good.bound hbound).valid⟩
    simp only [hvar, hbound, hunseen]
    refine ih (by simpa using hn) (fun w hw hmem => ?_) hnodup
    obtain rfl | hmem := mem_cons.1 hmem
    · exact hfresh hw
    · exact hseen w (mem_cons_of_mem v hw) hmem

end

end Way

end Env

end Typing

end UnitCheck
