import UnitCheck.Proofs.Typing.Sound

/-!
# When a copy is needed, and of what

Unification has two good answers: a value fits as it is, or it fits if it is copied.

* A value that fits as it is has the type that is expected (`unify_ok_needs_no_copy`), except in the
  parameters of function types. A copy that is needed there is left out of the answer
  (`fn_takes_reference_for_value`), so of parameters it is known only that they are compatible.
* A value that needs a copy holds something that may be copied (`unify_needsCopy_copies_eligible`):
  the part of it at which the two types differ. The value itself may be one that must not be copied,
  such as a slice of references (`slice_needs_copy`), since the answer on a part is passed on to the
  whole.
-/

namespace UnitCheck

open TypeTerm

namespace TypeTerm

/-- The type with the parameters of functions left out. Their number stays. -/
def hideParams : TypeTerm → TypeTerm
  | wrap w u => wrap w u.hideParams
  | fn ps r => fn (.replicate ps.length missing) r.hideParams
  | u => u

def isLoose (u : TypeTerm) : Prop := u.isAbsorbing ∨ ¬ u.isTyped

theorem isLoose.not_wrap {w : Wrapper} {u : TypeTerm} : ¬ (wrap w u).isLoose := by
  rintro ((h | h) | h)
  · cases h
  · cases h
  · exact h trivial

theorem isLoose.not_fn {ps : List TypeTerm} {r : TypeTerm} : ¬ (fn ps r).isLoose := by
  rintro ((h | h) | h)
  · cases h
  · cases h
  · exact h trivial

theorem isLoose.hideParams_eq {u : TypeTerm} (h : u.isLoose) : u.hideParams = u := by
  cases u with
  | missing | atom | var => rfl
  | wrap => exact absurd h not_wrap
  | fn => exact absurd h not_fn

theorem isLoose.cut {u : TypeTerm} (h : u.isLoose) (n : Nat) : (u.cut n).isLoose := by
  cases n with
  | zero => exact .inl (.inl rfl)
  | succ n =>
    cases u with
    | missing | atom | var => exact h
    | wrap => exact absurd h not_wrap
    | fn => exact absurd h not_fn

end TypeTerm

/-- The terms are equal, except where one of them is free. -/
inductive Alike (free : TypeTerm → Prop) : TypeTerm → TypeTerm → Prop
  | freeLeft {a b : TypeTerm} : free a → Alike free a b
  | freeRight {a b : TypeTerm} : free b → Alike free a b
  | refl (a : TypeTerm) : Alike free a a
  | wrap (w : Wrapper) {a b : TypeTerm} : Alike free a b → Alike free (.wrap w a) (.wrap w b)
  | fn {ps qs : List TypeTerm} {r s : TypeTerm} : ps.length = qs.length →
      (∀ (k : Nat) (p q : TypeTerm), ps[k]? = some p → qs[k]? = some q → Alike free p q) →
      Alike free r s → Alike free (.fn ps r) (.fn qs s)

/-- A value of the second type is one of the first as it is: the types are equal outside of the
parameters of functions, and compatible there. -/
structure FitsUncopied (free : TypeTerm → Prop) (expect got : TypeTerm) : Prop where
  alike : Alike free expect.hideParams got.hideParams
  compatible : Compatible free expect got

/-- Something in a value of type `got` may be copied to make one of type `expect`: the value itself,
or what it refers to if no reference is expected, or something in the same place in parts of both
types. Parameters of functions are no such place. -/
inductive CopyPoint : (expect got : TypeTerm) → Prop
  | value {a b : TypeTerm} : b.isCopy = true → CopyPoint a b
  | referent (isMut : Bool) {a b : TypeTerm} : a.isReference = false → b.isCopy = true →
      CopyPoint a (.wrap (.reference isMut) b)
  | wrap (w : Wrapper) {a b : TypeTerm} : CopyPoint a b → CopyPoint (.wrap w a) (.wrap w b)
  | result {ps qs : List TypeTerm} {r s : TypeTerm} : ps.length = qs.length → CopyPoint r s →
      CopyPoint (.fn ps r) (.fn qs s)

namespace Typing

/-! ## What the answers say -/

section Relates

variable {free : TypeTerm → Prop} {fit : Fit} {a b : TypeTerm}

theorem Fit.Relates.alike (hfree : ∀ u, free u → u.hideParams = u) (h : Fit.Relates free fit a b)
    (hok : fit = .ok) : Alike free a.hideParams b.hideParams := by
  induction h with
  | @freeLeft a b h => exact .freeLeft ((hfree a h).symm ▸ h)
  | @freeRight a b h => exact .freeRight ((hfree b h).symm ▸ h)
  | refl a => exact .refl _
  | wrap w _ ih => exact .wrap w (ih hok)
  | @fn fit ps qs r s hlen _ _ ih =>
    refine .fn (by simpa using hlen) (fun k p q hp hq => ?_) (ih hok)
    -- parameters that are left out are all the same
    rw [List.eq_of_mem_replicate (List.mem_of_getElem? hp),
      List.eq_of_mem_replicate (List.mem_of_getElem? hq)]
    exact .refl _
  | value | referent => cases hok

theorem Fit.Relates.copyPoint (h : Fit.Relates free fit a b) (hneeds : fit = .needsCopy) :
    CopyPoint a b := by
  induction h with
  | freeLeft | freeRight | refl => cases hneeds
  | wrap w _ ih => exact .wrap w (ih hneeds)
  | fn hlen _ _ ih => exact .result hlen (ih hneeds)
  | value hcopy => exact .value hcopy
  | referent isMut href hcopy => exact .referent isMut href hcopy

end Relates

variable {e f : Env} {expect got : TypeId} {span : Span}

theorem spares_isLoose {S : List TypeId} : e.Spares isLoose S :=
  ⟨fun _ => .inl, .inl fun _ => .inr⟩

/-- The expansions of two types that were unified are as the answer says, then and later. -/
theorem relates_expanded {free : TypeTerm → Prop} (he : e.Reachable) (hexpect : e.Over expect)
    (hgot : e.Over got) (hspares : e.Spares free [expect, got])
    (hcut : ∀ u, free u → ∀ n, free (u.cut n))
    (hfit : (unify expect got span e).1.isMismatch = false)
    (hf : Env.Steps (unify expect got span e).2 f) :
    (unify expect got span e).1.Relates free (f.expanded expect) (f.expanded got) := by
  have h : e.Unifies expect got _ _ := yields_unify he.good hexpect hgot span
  obtain ⟨good, hext⟩ := hf.good_ext h.good
  have hext' := h.ext.trans hext
  have hoe := hext'.isOver he.good hexpect
  have hog := hext'.isOver he.good hgot
  obtain ⟨u, hu⟩ := good.total hoe
  obtain ⟨w, hw⟩ := good.total hog
  rw [Env.expanded_eq good hoe hu, Env.expanded_eq good hog hw]
  exact (h.relates hspares hfit hext hu hw).cut hcut (hspares.absorbing _ (.inl rfl)) depthLimit

/-! ## Types made of integers, references and a variable -/

/-- An environment with a variable (type 22), references to integers (23), optional types of the
variable (24), of such references (25) and of integers (26), slices of integers (27) and of
references (28), and functions from integers (29) and from references (30) to integers. -/
def references : Env :=
  let e := (fresh .zero (Env.initial .initial)).2
  let shapes : List Shape :=
    [.reference false Builtin.int, .optional 22, .optional 23, .optional Builtin.int,
      .array .slice Builtin.int 0, .array .slice 23 0]
  let types := shapes.foldl (fun t s => (t.intern (.ofShape s)).1) e.types
  { e with types := ((types.fn [Builtin.int] Builtin.int).1.fn [23] Builtin.int).1 }

theorem reachable_references : references.Reachable := by
  have hvar : (Env.initial .initial).Steps _ := .step .refl (.fresh .zero)
  have hshapes :=
    (((((hvar.step (.types (.intern (.reference false Builtin.int) .default ?_ ?_ ?_))).step
    (.types (.intern (.optional 22) .default ?_ ?_ ?_))).step
    (.types (.intern (.optional 23) .default ?_ ?_ ?_))).step
    (.types (.intern (.optional Builtin.int) .default ?_ ?_ ?_))).step
    (.types (.intern (.array .slice Builtin.int 0) .default ?_ ?_ ?_))).step
    (.types (.intern (.array .slice 23 0) .default ?_ ?_ ?_))
  · exact ⟨.initial, .initial,
      (hshapes.step (.types (.fn [Builtin.int] Builtin.int (by decide +kernel)))).step
      (.types (.fn [23] Builtin.int (by decide +kernel)))⟩
  all_goals decide +kernel

theorem view_references : references.types.view Builtin.int = .atom (.int 0) ∧
      references.types.view 22 = .var 1 ∧
      references.types.view 23 = .wrap (.reference false) Builtin.int ∧
      references.types.view 24 = .wrap .optional 22 ∧
      references.types.view 25 = .wrap .optional 23 ∧
      references.types.view 26 = .wrap .optional Builtin.int ∧
      references.types.view 27 = .wrap .slice Builtin.int ∧
      references.types.view 28 = .wrap .slice 23 ∧
      references.types.view 29 = .fn [Builtin.int] Builtin.int ∧
      references.types.view 30 = .fn [23] Builtin.int := by decide +kernel

theorem Env.Good.all_of_unbound {P : TypeTerm → Prop} {i : TypeId} {u : TypeTerm}
    (good : e.Good) (hi : e.Over i) (hnone : e.bindings = []) (hterm : e.types.termOf i = u)
    (hu : u.Leaves P) : e.All P i := by
  have hfree : e.binding? = fun _ => none := by
    funext v
    rw [Env.binding?, hnone]
    rfl
  intro w hw
  rw [Env.Denotes, hfree] at hw
  rwa [← (good.types.reads_iff_termOf (hi.lt_size good.types)).1 hw, hterm]

/-! ## The two answers -/

/-- **A value that fits as it is needs no copy.** If two types of a reachable environment are found
to fit without a copy, then right away and after any further operations their expansions are equal
outside of the parameters of functions, and compatible there, except where one of them has the error
type, a missing type or an untyped kind. If no untyped kind occurs in the meaning of the two types,
only the error type and missing types are excepted. -/
theorem unify_ok_needs_no_copy (he : e.Reachable) (hexpect : e.Over expect) (hgot : e.Over got)
    (hok : (unify expect got span e).1 = .ok) (hf : Env.Steps (unify expect got span e).2 f) :
    FitsUncopied isLoose (f.expanded expect) (f.expanded got) ∧
      (e.All isTyped expect → e.All isTyped got →
        FitsUncopied isAbsorbing (f.expanded expect) (f.expanded got)) := by
  have hfit : (unify expect got span e).1.isMismatch = false := by rw [hok]; rfl
  constructor
  · have h := relates_expanded he hexpect hgot spares_isLoose (fun _ => isLoose.cut) hfit hf
    exact ⟨h.alike (fun _ => isLoose.hideParams_eq) hok, h.compatible⟩
  · intro hte htg
    have h := relates_expanded he hexpect hgot ⟨fun _ => id, .inr (by simp [hte, htg])⟩
      (fun _ => isAbsorbing_cut) hfit hf
    exact ⟨h.alike (fun _ h => isLoose.hideParams_eq (.inl h)) hok, h.compatible⟩

/-- The variable in the one optional type comes to stand for the references in the other. -/
theorem unify_ok_needs_no_copy_optional :
    let f := (unify 24 25 .zero references).2
    (unify 24 25 .zero references).1 = .ok ∧
      FitsUncopied isAbsorbing (f.expanded 24) (f.expanded 25) := by
  intro f
  obtain ⟨hint, hvar, href, hopt, hopt', -⟩ := view_references
  have hok : (unify 24 25 .zero references).1 = .ok := by decide +kernel
  have hexpect : references.Over 24 := .wrap hopt (.var hvar rfl (Nat.le_refl 1))
  have hgot : references.Over 25 := .wrap hopt' (.wrap href (.atom hint))
  refine ⟨hok, (unify_ok_needs_no_copy reachable_references hexpect hgot hok .refl).2
    (fun u hu => ?_) fun u hu => ?_⟩
  · rw [hu.functional (.wrap hopt (.free hvar rfl))]
    exact .wrap (.var trivial)
  · rw [hu.functional (.wrap hopt' (.wrap href (.atom hint)))]
    exact .wrap (.wrap (.atom trivial))

set_option maxRecDepth 4000 in
/-- A function that takes references to integers is accepted as it is where a function that takes
integers is expected. -/
theorem fn_takes_reference_for_value :
    ∃ (e : Env) (expect got : TypeId), e.Reachable ∧ e.Over expect ∧ e.Over got ∧
      e.All isTyped expect ∧ e.All isTyped got ∧
      (unify expect got .zero e).1 = .ok ∧
      ¬ Alike isAbsorbing ((unify expect got .zero e).2.expanded expect)
        ((unify expect got .zero e).2.expanded got) := by
  obtain ⟨hint, -, href, -, -, -, -, -, hfn, hfn'⟩ := view_references
  have hover : references.Over 29 := .fn hfn (by simpa using .atom hint) (.atom hint)
  have hover' : references.Over 30 := .fn hfn' (by simpa using .wrap href (.atom hint)) (.atom hint)
  have good := reachable_references.good
  refine ⟨references, 29, 30, reachable_references, hover, hover', ?_, ?_, by decide +kernel, ?_⟩
  · refine good.all_of_unbound hover rfl (u := .fn [.atom (.int 0)] (.atom (.int 0))) ?_ ?_
    · simp [TypeTable.termOf, TypeTable.termAt, hfn, hint]
    · exact .fn (by simpa using .atom trivial) (.atom trivial)
  · refine good.all_of_unbound hover' rfl
      (u := .fn [.wrap (.reference false) (.atom (.int 0))] (.atom (.int 0))) ?_ ?_
    · simp [TypeTable.termOf, TypeTable.termAt, hfn', href, hint]
    · exact .fn (by simpa using .wrap (.atom trivial)) (.atom trivial)
  · -- an integer is not a reference to one
    change ¬ Alike _ (.fn [.atom (.int 0)] _) (.fn [.wrap (.reference false) _] _)
    intro h
    cases h with
    | freeLeft h | freeRight h => exact absurd (.inl h) isLoose.not_fn
    | fn _ hps _ =>
      cases hps 0 _ _ rfl rfl with
      | freeLeft h => obtain h | h := h <;> cases h
      | freeRight h => exact absurd (.inl h) isLoose.not_wrap

/-- **A copy is made only of what may be copied.** If a value of a type of a reachable environment
is found to fit with a copy, then right away and after any further operations the part of it that is
to be copied is one that may be copied. -/
theorem unify_needsCopy_copies_eligible (he : e.Reachable) (hexpect : e.Over expect)
    (hgot : e.Over got) (hneeds : (unify expect got span e).1 = .needsCopy)
    (hf : Env.Steps (unify expect got span e).2 f) :
    CopyPoint (f.expanded expect) (f.expanded got) := by
  have hfit : (unify expect got span e).1.isMismatch = false := by rw [hneeds]; rfl
  have h := relates_expanded he hexpect hgot spares_isLoose (fun _ => isLoose.cut) hfit hf
  exact h.copyPoint hneeds

/-- Where an optional integer is expected, what an optional reference refers to is copied. -/
theorem unify_needsCopy_copies_eligible_optional :
    let f := (unify 26 25 .zero references).2
    (unify 26 25 .zero references).1 = .needsCopy ∧ CopyPoint (f.expanded 26) (f.expanded 25) := by
  intro f
  obtain ⟨hint, -, href, -, hopt, hopt', -⟩ := view_references
  have hneeds : (unify 26 25 .zero references).1 = .needsCopy := by decide +kernel
  exact ⟨hneeds, unify_needsCopy_copies_eligible reachable_references (.wrap hopt' (.atom hint))
    (.wrap hopt (.wrap href (.atom hint))) hneeds .refl⟩

/-- A slice of references to integers is accepted with a copy where a slice of integers is expected,
and it is neither a value that may be copied nor a reference to one. -/
theorem slice_needs_copy :
    ∃ (e : Env) (expect got : TypeId), e.Reachable ∧ e.Over expect ∧ e.Over got ∧
      (unify expect got .zero e).1 = .needsCopy ∧
      let f := (unify expect got .zero e).2
      (expand keep got f).2.types.isCopy (expand keep got f).1 = false ∧
        ¬ ∃ isMut u, f.expanded got = .wrap (.reference isMut) u ∧ u.isCopy = true := by
  obtain ⟨hint, -, href, -, -, -, hslice, hslice', -⟩ := view_references
  have hover : references.Over 27 := .wrap hslice (.atom hint)
  have hover' : references.Over 28 := .wrap hslice' (.wrap href (.atom hint))
  refine ⟨references, 27, 28, reachable_references, hover,
    hover', by decide +kernel, by decide +kernel, ?_⟩
  rintro ⟨isMut, u, hu, -⟩
  have hslice : ((unify 27 28 .zero references).2.expanded 28).isReference = false := by
    decide +kernel
  rw [hu] at hslice
  cases hslice

end Typing

end UnitCheck
