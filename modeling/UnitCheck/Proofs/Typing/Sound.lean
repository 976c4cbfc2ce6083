import UnitCheck.Proofs.Typing.Reachable

/-!
# Types that were unified stay compatible

What a type is in the end is found by expanding it: every variable is replaced by what it stands
for, down to a fixed depth (`Env.expanded`). If two types were unified once, their expansions are
compatible then and after whatever inference does later.

An untyped kind is the exception. It is the type of a number before it is settled, and a number type
fits it without becoming equal to it. The statement therefore is about types in whose meaning no
untyped kind occurs; that none is written in the types themselves is not enough, since a variable
may stand for one.
-/

namespace UnitCheck.Typing

variable {e : Env} {i : TypeId} {u : TypeTerm}

/-- A type with every variable replaced by what it stands for, as far as expanding goes. -/
def Env.expanded (e : Env) (i : TypeId) : TypeTerm :=
  (expand keep i e).2.types.termOf (expand keep i e).1

theorem fillable_keep : Fillable (fun _ v u => u = .var v) keep where
  mono _ h := h
  leaf {e v i} good hi hview _ := by
    refine .pure ⟨.refl good, ?_, hi, _, .free hview rfl, rfl⟩
    rintro rfl
    cases hview

theorem Env.expanded_eq (good : e.Good) (hi : e.Over i) (hu : e.Denotes i u) :
    e.expanded i = u.cut depthLimit := by
  have hexp : e.Expands _ depthLimit i _ _ := fillable_keep.expansion.yields_expandAt good hi
  obtain ⟨u', hread, hfills⟩ := hexp.reading hu
  rw [← hfills.eq_cut]
  exact (hexp.good.types.reads_iff_termOf (hexp.isOver.lt_size hexp.good.types)).1 hread

theorem isAbsorbing_cut (h : u.isAbsorbing) (n : Nat) : (u.cut n).isAbsorbing := by
  cases n with
  | zero => exact .inl rfl
  | succ n =>
    obtain rfl | rfl := h
    · exact .inl rfl
    · exact .inr rfl

/-- Unification is sound and stays sound: if two types of a reachable environment, in whose meaning
no untyped kind occurs, are found to fit, then they are compatible right away and after any further
operations. -/
theorem unify_stays_compatible {expect got : TypeId} {span : Span} {f : Env} (he : e.Reachable)
    (hexpect : e.Over expect) (hgot : e.Over got)
    (hte : e.All TypeTerm.isTyped expect) (htg : e.All TypeTerm.isTyped got)
    (hfit : (unify expect got span e).1 = .ok ∨ (unify expect got span e).1 = .needsCopy)
    (hf : Env.Steps (unify expect got span e).2 f) :
    Compatible TypeTerm.isAbsorbing (f.expanded expect) (f.expanded got) := by
  have h : e.Unifies expect got _ _ := yields_unify he.good hexpect hgot span
  obtain ⟨good, hext⟩ := hf.good_ext h.good
  have hext' := h.ext.trans hext
  have hoe := hext'.isOver he.good hexpect
  have hog := hext'.isOver he.good hgot
  obtain ⟨u, hu⟩ := good.total hoe
  obtain ⟨w, hw⟩ := good.total hog
  have hfits : (unify expect got span e).1.isMismatch = false := by
    obtain hfit | hfit := hfit <;> rw [hfit] <;> rfl
  have hagree : Compatible TypeTerm.isAbsorbing u w :=
    h.agree hfits (by simp [hte, htg]) hext hu hw
  rw [Env.expanded_eq good hoe hu, Env.expanded_eq good hog hw]
  refine Compatible.cut ?_ ?_ hagree depthLimit depthLimit
  · exact fun _ h n => isAbsorbing_cut h n
  · exact .inl rfl

/-- The optional type of a variable and that of integers, unified before a literal is settled. -/
theorem unify_stays_compatible_optional :
    let e₁ := (fresh .zero (Env.initial .initial)).2
    let e₂ := { e₁ with types := (e₁.types.intern ⟨.optional 22, .default⟩).1 }
    let e₃ := { e₂ with types := (e₂.types.intern ⟨.optional Builtin.int, .default⟩).1 }
    let f := (applyDefaults (freshLiteral .untypedInt .zero (unify 23 24 .zero e₃).2).2).2
    (unify 23 24 .zero e₃).1 = .ok ∧
      Compatible TypeTerm.isAbsorbing (f.expanded 23) (f.expanded 24) := by
  intro e₁ e₂ e₃ f
  have hreach : e₃.Reachable := by
    refine ⟨.initial, .initial, .step (.step (.step .refl (.fresh .zero)) (.types ?_)) (.types ?_)⟩
    · exact .intern _ _ (by decide) (by decide +kernel) (by decide)
    · exact .intern _ _ (by decide) (by decide +kernel) (by decide)
  have hvar : e₃.types.view 22 = .var 1 := by decide +kernel
  have hint : e₃.types.view Builtin.int = .atom (.int 0) := by decide +kernel
  have hopt : e₃.types.view 23 = .wrap .optional 22 := by decide +kernel
  have hopt' : e₃.types.view 24 = .wrap .optional Builtin.int := by decide +kernel
  have hok : (unify 23 24 .zero e₃).1 = .ok := by decide +kernel
  refine ⟨hok, unify_stays_compatible hreach (.wrap hopt (.var hvar rfl (by decide +kernel)))
    (.wrap hopt' (.atom hint)) (fun u hu => ?_) (fun u hu => ?_) (.inl hok) ?_⟩
  · rw [hu.functional (.wrap hopt (.free hvar (by decide +kernel)))]
    exact .wrap (.var trivial)
  · rw [hu.functional (.wrap hopt' (.atom hint))]
    exact .wrap (.atom trivial)
  · exact .step (.step .refl (.freshLiteral .untypedInt .zero rfl)) .applyDefaults

/-- It is not enough that no untyped kind is written in the two types: a variable that was made to
stand for an untyped kind fits an integer and stays what it is. -/
theorem unify_untyped_not_compatible :
    ∃ (e : Env) (expect got : TypeId), e.Reachable ∧ e.Over expect ∧ e.Over got ∧
      (e.types.termOf expect).Leaves TypeTerm.isTyped ∧
      (e.types.termOf got).Leaves TypeTerm.isTyped ∧ (unify expect got .zero e).1 = .ok ∧
      ¬ Compatible TypeTerm.isAbsorbing ((unify expect got .zero e).2.expanded expect)
        ((unify expect got .zero e).2.expanded got) := by
  let e₁ := (fresh .zero (Env.initial .initial)).2
  let e₂ := (unify 22 Builtin.untypedInt .zero e₁).2
  have hover : e₁.Over 22 := .var (v := 1) (by decide +kernel) rfl (by decide +kernel)
  have hreach : e₂.Reachable := by
    refine ⟨.initial, .initial, .step (.step .refl (.fresh .zero)) (.unify _ _ _ hover ?_)⟩
    exact .atom (a := .plain .untypedInt) (by decide +kernel)
  have hview : e₂.types.view 22 = .var 1 := by decide +kernel
  have hint : e₂.types.view Builtin.int = .atom (.int 0) := by decide +kernel
  have hvar : e₂.Over 22 := .var hview rfl (by decide +kernel)
  have hstep : e₂.Step _ := .unify _ _ .zero hvar (.atom hint)
  obtain ⟨good, hext⟩ := hstep.good_ext hreach.good
  refine ⟨e₂, 22, Builtin.int, hreach, hvar, .atom hint, ?_, ?_, by decide +kernel, ?_⟩
  · rw [TypeTable.termOf, TypeTable.termAt, hview]
    exact .var trivial
  · rw [TypeTable.termOf, TypeTable.termAt, hint]
    exact .atom trivial
  · -- the variable still stands for the untyped kind
    rw [Env.expanded_eq good (hext.isOver hreach.good hvar) (u := .atom (.plain .untypedInt))
        (.bound (v := 1) (j := Builtin.untypedInt) (by decide +kernel) (by decide +kernel)
          (.atom (by decide +kernel))),
      Env.expanded_eq good (hext.isOver hreach.good (.atom hint))
        (.atom (a := .int 0) (by decide +kernel))]
    intro h
    cases h with
    | freeLeft h | freeRight h => obtain h | h := h <;> cases h

end UnitCheck.Typing
