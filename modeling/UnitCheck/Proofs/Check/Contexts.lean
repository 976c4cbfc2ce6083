import UnitCheck.Proofs.Check.Types

/-!
# Types in their contexts

A value stands in a context that expects something of its type: a `let`, an assignment, a `return`
or the tail of a function, an argument of a call, or a condition. While code is typed, the two types
are made to agree, and `Env.Agree` holds from then on. If no pass reports a fault, the types that
are recorded in the end mean what those of the walk mean (`Env.Records`), and no type among them
goes with everything. So every value fits its context by the types that are recorded (`passes_fit`).
-/

namespace UnitCheck

open Code List

theorem TypeTerm.isSolid.not_isAbsorbing {clean : Prop} {u : TypeTerm} (h : u.isSolid clean)
    (hclean : clean) : ¬ u.isAbsorbing :=
  fun habsorbing => habsorbing.elim (h.ne_error hclean) h.ne_missing

theorem TypeTerm.Leaves.not_isAbsorbing {u : TypeTerm} (h : u.Leaves (¬ TypeTerm.isAbsorbing ·)) :
    ¬ u.isAbsorbing := by
  rintro (rfl | rfl)
  · cases h with
    | atom hnot => exact hnot (.inl rfl)
  · cases h with
    | missing hnot => exact hnot (.inr rfl)

theorem Compatible.of_not_isAbsorbing {a b : TypeTerm} (h : Compatible TypeTerm.isAbsorbing a b)
    (ha : a.Leaves (¬ TypeTerm.isAbsorbing ·)) (hb : b.Leaves (¬ TypeTerm.isAbsorbing ·)) :
    Compatible (fun _ => False) a b := by
  refine h.of_leaves (fun _ _ => ?_) (fun _ _ => ?_) ha hb <;> rintro (h | h) <;> cases h

/-! ## The contexts of a module -/

namespace Typing

theorem enclosed_or_isGlobal {clean : Prop} {m : Module} {i : LineId} {x : Line}
    (hm : m.Regular clean) (hx : m.line? i = some x) :
    (∃ d a f, m.item? d = some a ∧ a.func = some f ∧ m.Encloses f.body i) ∨ m.IsGlobal i := by
  cases hm.places hx with
  | global hi => exact .inr (.inl hi)
  | func hmem hf hi => exact .inl ⟨_, _, _, hm.latest hmem, hf, .inl hi⟩
  | @value w y b hw hb hi =>
    -- the value is computed for a line of the module's own or in the body of a function
    obtain ⟨hvalid, hlt⟩ := lt_size_of_value? hw
    obtain ⟨v, hv, hreach⟩ := hm.once.exists_root hm.backward hvalid hlt
    rcases mem_append.1 hv with hv | hv
    · exact .inr (.inr ⟨v, hv, w, y, hreach, hw, b, hb, hi⟩)
    · obtain ⟨o, ho, hv⟩ := mem_flatMap.1 hv
      obtain ⟨d, -, rfl⟩ := mem_sortedItems_iff.1 ho
      cases hitem : m.item? d with
      | none => simp [hitem] at hv
      | some a =>
        rw [hitem, Option.elim_some, Module.bodyOperands] at hv
        cases hfunc : a.func with
        | none => simp [hfunc] at hv
        | some f =>
          rw [hfunc] at hv
          exact .inl ⟨d, a, f, hitem, hfunc, .inr ⟨v, hv, w, y, hreach, hw, b, hb, hi⟩⟩

/-- The type that is recorded for a value is compatible with the one that is expected. Modifiers and
the lengths of arrays on the heap do not count. -/
def Typed.Fits (x : Typed) (T : TypeTable) (expect : TypeId) (v : ValueId) : Prop :=
  ∃ t, x.valueTypes.lookup v = some t ∧ Compatible (fun _ => False) (T.termOf expect) (T.termOf t)

/-- The type that is recorded for a value is compatible with that of a slot. -/
def Typed.FitsSlot (x : Typed) (T : TypeTable) (l : LocalId) (v : ValueId) : Prop :=
  ∃ t, x.localTypes.lookup l = some t ∧ x.Fits T t v

/-- Every value of a module fits the context that it stands in, by the types of a table. -/
structure ContextsFit (m : Module) (T : TypeTable) (x : Typed) : Prop where
  binds : ∀ {i : LineId} {l : LocalId} {v : ValueId}, m.line? i = some (.bind l v) →
    v.isValid = true → x.FitsSlot T l v
  assigns : ∀ {i : LineId} {l : LocalId} {v : ValueId}, m.line? i = some (.assign (.slot l) v) →
    x.FitsSlot T l v
  returns : ∀ {d : DeclId} {a : Item} {f : Func} {i : LineId} {v : ValueId}, m.item? d = some a →
    a.func = some f → m.Encloses f.body i → m.line? i = some (.return_ v) → v.isValid = true →
    x.Fits T f.result v
  /-- Only in a global variable a `return` has no function. -/
  returnsFrom : ∀ {i : LineId} {v : ValueId}, m.line? i = some (.return_ v) →
    (∃ d a f, m.item? d = some a ∧ a.func = some f ∧ m.Encloses f.body i) ∨ m.IsGlobal i
  tails : ∀ {d : DeclId} {a : Item} {f : Func} {b : Block}, m.item? d = some a → a.func = some f →
    m.block? f.body = some b → b.tail.isValid = true → x.Fits T f.result b.tail
  /-- There are as many arguments as parameters. -/
  calls : ∀ {v callee : ValueId} {args : List ValueId} {candidates : List DeclId},
    m.value? v = some (.call callee args candidates) → ∃ t sig,
      x.valueTypes.lookup callee = some t ∧ T.signature? t = some sig ∧ List.Forall₂ (x.Fits T) sig.params args
  branches : ∀ {v : ValueId} {chain : Chain}, m.value? v = some (.ifElse (some chain)) →
    ∀ y ∈ chain.branches, y.1.isValid = true → x.Fits T Builtin.bool y.1
  loops : ∀ {v cond : ValueId} {b : BlockId}, m.value? v = some (.whileLoop cond b) →
    cond.isValid = true → x.Fits T Builtin.bool cond

/-! ## Types as they are recorded in the end -/

variable {clean : Prop} {e e' : Env} {a a' b b' i j : TypeId}

/-- What a type means is recorded in the table of another environment. Nothing in it goes with
everything. -/
structure Env.Records (e e' : Env) (i j : TypeId) : Prop where
  isOver : e'.Over j
  denotes : e.Denotes i (e'.types.termOf j)
  leaves : (e'.types.termOf j).Leaves (¬ TypeTerm.isAbsorbing ·)

theorem Env.Over.reads_iff_termOf {u : TypeTerm} (h : e.Over i) (good : e.Good) :
    e.types.Reads i u ↔ e.types.termOf i = u :=
  good.types.reads_iff_termOf (h.lt_size good.types)

theorem Env.Settles.records (h : e.Settles clean i j e') (good : e.Good) (good' : e'.Good)
    (hi : e.Has clean i) (hcalm : e.Calm clean) (hcalm' : e'.Calm clean) : e.Records e' i j := by
  obtain ⟨u, hu⟩ := good.total hi.isOver
  obtain rfl := (h.isOver.reads_iff_termOf good').1 (h.same hcalm' u hu)
  exact ⟨h.isOver, hu, (hi.solid _ hu).mono fun _ hl => hl.not_isAbsorbing hcalm⟩

theorem Env.records_of_closed {T : TypeTable} (h : T.Closed clean i) (wf : T.WellFormed)
    (hclean : clean)
    (good' : e'.Good) (hext : T.Extends e.types) (hext' : T.Extends e'.types) :
    e.Records e' i i := by
  obtain ⟨hover, u, hread, hsolid⟩ := h
  have hover' : e'.Over i := hover.mono wf hext' (Nat.zero_le _)
  obtain rfl := (hover'.reads_iff_termOf good').1 (hread.mono wf hext')
  refine ⟨hover', ?_, hsolid.mono fun _ hl => hl.not_isAbsorbing hclean⟩
  exact Denotes.mono (hover.denotes_of_reads hread) wf hext

theorem Env.records_bool (good : e.Good) (good' : e'.Good) :
    e.Records e' Builtin.bool Builtin.bool := by
  have hview := good.types.view_builtin (k := 3) rfl rfl
  have hview' := good'.types.view_builtin (k := 3) rfl rfl
  have hover : e'.Over Builtin.bool := .atom hview'
  have hterm := (hover.reads_iff_termOf good').1 (.atom hview')
  refine ⟨hover, hterm ▸ .atom hview, hterm ▸ .atom ?_⟩
  rintro (h | h) <;> cases h

theorem Env.Agree.compatible (h : e.Agree a b) (ha : e.Records e' a a') (hb : e.Records e' b b') :
    Compatible (fun _ => False) (e'.types.termOf a') (e'.types.termOf b') :=
  (h (.refl e) ha.denotes hb.denotes).of_not_isAbsorbing ha.leaves hb.leaves

/-- A type that takes arguments is recorded as that of a function, with parameters for them. -/
theorem Env.Applies.signature {t t' : TypeId} {ts ts' : List TypeId} (h : e.Applies t ts)
    (good : e.Good)
    (good' : e'.Good) (ht : e.Records e' t t') (hts : List.Forall₂ (e.Records e') ts ts') :
    ∃ sig, e'.types.signature? t' = some sig ∧ List.Forall₂ (fun p t =>
      Compatible (fun _ => False) (e'.types.termOf p) (e'.types.termOf t)) sig.params ts' := by
  obtain ⟨hover, hdenotes, hleaves⟩ := ht
  have hread : e'.types.Reads t' (e'.types.termOf t') := (hover.reads_iff_termOf good').2 rfl
  obtain habsorbing | ⟨us, w, hterm, hlen, hfit⟩ := h good (.refl e) hdenotes
  · exact absurd habsorbing hleaves.not_isAbsorbing
  · -- the term is that of a function, so the table has a signature for it
    rw [hterm] at hread hleaves
    cases hleaves with | fn hleaves =>
    cases hread with
    | bound _ hbound => cases hbound
    | @fn _ r ps _ _ hview hlen' hps =>
      obtain ⟨hlen'', hrecords⟩ := forall₂_iff_get.1 hts
      refine ⟨⟨ps, r⟩, TypeTable.signature?_of_view hview, ?_⟩
      refine forall₂_iff_get.2 ⟨?_, fun k hk hk' => ?_⟩
      · rw [hlen', hlen, hlen'']
      · have hp : ps[k]? = some ps[k] := List.getElem?_eq_getElem hk
        have hq : us[k]? = some us[k] := List.getElem?_eq_getElem (hlen' ▸ hk)
        have ha : ts[k]? = some ts[k] := List.getElem?_eq_getElem (hlen'' ▸ hk')
        have hrecord := hrecords k (hlen'' ▸ hk') hk'
        have hparam := (hover.signature hview).1 _ (mem_of_getElem? hp)
        rw [get_eq_getElem, (Env.Over.reads_iff_termOf hparam good').1 (hps k _ _ hp hq)]
        exact (hfit k _ _ _ hq ha hrecord.denotes).of_not_isAbsorbing
          (hleaves _ (mem_of_getElem? hq))
          hrecord.leaves

end Typing

namespace Check

open Typing

variable {p : Passes} {w s : State} {v : ValueId} {l : LocalId} {t : TypeId}

/-! ## What is recorded -/

theorem exists_lookup_of_settledAs {α : Type} {k : IdKind} {clean : Prop} {e e' : Env}
    {notes out : List (Id k × TypeId)} {xs : List α} {f : α → Nat}
    (h : List.Forall₂ (fun x => SettledAs clean e notes e' (f x)) xs out) {n : Nat}
    (hn : n ∈ xs.map f) :
    ∃ t j, notes.lookup ⟨n⟩ = some t ∧ out.lookup ⟨n⟩ = some j ∧ e.Settles clean t j e' := by
  induction h with
  | nil => cases hn
  | @cons x y xs out hy _ ih =>
    obtain ⟨hkey, t, ht, hsettles⟩ := hy
    obtain ⟨key, j⟩ := y
    obtain rfl : key = ⟨f x⟩ := hkey
    by_cases heq : n = f x
    · subst heq
      exact ⟨t, j, ht, lookup_cons_self, hsettles⟩
    · have hne : (⟨n⟩ : Id k) ≠ ⟨f x⟩ := fun h => heq (congrArg Id.index h)
      rw [map_cons, mem_cons] at hn
      obtain ⟨t', j', ht', hj', hsettles'⟩ := ih (hn.resolve_left heq)
      refine ⟨t', j', ht', ?_, hsettles'⟩
      rw [lookup_cons, beq_false_of_ne hne]
      exact hj'

namespace Passed

theorem value (h : Passed p w s) (hcalm : s.env.Calm p.IsClean) (hv : (v, t) ∈ w.valueTypes) :
    ∃ j, p.typed.valueTypes.lookup v = some j ∧ w.env.Records s.env t j := by
  have hcalm0 := h.ends.keeps.grows.toExtends.calm hcalm
  obtain ⟨hvalid, hlt⟩ := h.ends.walked.defined hcalm0 _ hv
  have hmem : v.index ∈ ((List.range p.lowered.module.values.size).drop 1).map id := by
    rw [map_id, mem_values_iff]
    exact ⟨Nat.pos_of_ne_zero (by simpa [Id.isValid] using hvalid), hlt⟩
  obtain ⟨t', j, ht', hj, hsettles⟩ := exists_lookup_of_settledAs h.ends.settledValues hmem
  -- a value is noted once
  obtain ⟨t'', ht'', hmem'⟩ := exists_lookup hv
  obtain rfl := Option.some_inj.1 (ht'.symm.trans ht'')
  obtain rfl := congrArg Prod.snd (inj_on_of_nodup_map (h.ends.walked.nodup hcalm0) hmem' hv rfl)
  have good := h.ends.walked.ready.good
  exact ⟨j, hj, hsettles.records good h.good (h.ends.walked.ready.values _ hv) hcalm0 hcalm⟩

section

variable (h : Passed p w s) (hcalm : s.env.Calm p.IsClean)
include h hcalm

theorem slot {x : Local}
    (hx : p.lowered.module.local? l = some x) (ht : w.localTypes.lookup l = some t) :
    ∃ j, p.typed.localTypes.lookup l = some j ∧ w.env.Records s.env t j := by
  have hcalm0 := h.ends.keeps.grows.toExtends.calm hcalm
  have hmem := mem_map_of_mem (f := Prod.snd) (mem_locals_iff.2 hx)
  obtain ⟨t', j, ht', hj, hsettles⟩ := exists_lookup_of_settledAs h.ends.settledLocals hmem
  obtain rfl := Option.some_inj.1 (ht.symm.trans ht')
  obtain ⟨t', ht', hhas, -⟩ := h.ends.walked.ready.locals hx
  obtain rfl := Option.some_inj.1 (ht.symm.trans ht')
  exact ⟨j, hj, hsettles.records h.ends.walked.ready.good h.good hhas hcalm0 hcalm⟩

theorem fits {expect i : TypeId}
    (hagrees : w.Agrees expect v) (hi : w.env.Records s.env expect i) :
    p.typed.Fits p.module.types i v := by
  obtain ⟨t, ht, hagree⟩ := hagrees
  obtain ⟨j, hj, hrecords⟩ := h.value hcalm ht
  rw [h.types]
  exact ⟨j, hj, hagree.compatible hi hrecords⟩

theorem fitsSlot (hl : (p.lowered.module.local? l).isSome = true)
    (hfits : ∃ t, w.localTypes.lookup l = some t ∧ w.Agrees t v) :
    p.typed.FitsSlot p.module.types l v := by
  obtain ⟨x, hx⟩ := Option.isSome_iff_exists.1 hl
  obtain ⟨t, ht, hagrees⟩ := hfits
  obtain ⟨j, hj, hrecords⟩ := h.slot hcalm hx ht
  exact ⟨j, hj, h.fits hcalm hagrees hrecords⟩

theorem fits_bool (hagrees : w.Agrees Builtin.bool v) :
    p.typed.Fits p.module.types Builtin.bool v :=
  h.fits hcalm hagrees (Env.records_bool h.ends.walked.ready.good h.good)

theorem fits_result {d : DeclId} {a : Item} {f : Func}
    (ha : p.lowered.module.item? d = some a) (hf : a.func = some f)
    (hagrees : w.Agrees f.result v) : p.typed.Fits p.module.types f.result v := by
  have hresult := ((h.regular.items ha).func f hf).result
  have hext := h.ends.walked.ready.types
  refine h.fits hcalm hagrees (Env.records_of_closed hresult h.regular.types hcalm.1 h.good hext ?_)
  exact hext.trans h.ends.keeps.grows.types

theorem fitsLine {i : LineId} {x : Line}
    (hx : p.lowered.module.line? i = some x) : ∃ r, FitsLine w r x := by
  have hwalked := h.ends.walked
  have hcalm0 := h.ends.keeps.grows.toExtends.calm hcalm
  cases h.regular.places hx with
  | global hi => exact ⟨0, hwalked.globals hcalm0 i hi x hx⟩
  | func hmem hf hi =>
    have hitem := h.regular.latest hmem
    exact ⟨_, (hwalked.funcs hcalm0 _ _ _ hitem hf).lines i (.inl hi) x hx⟩
  | value hv hb hi =>
    obtain ⟨r, hfits⟩ := hwalked.values hcalm0 _ _ hv
    exact ⟨r, hfits.lines _ hb i hi x hx⟩

theorem fits_call {callee : ValueId} {args : List ValueId} {candidates : List DeclId}
    (hfits : FitsForm w (.call callee args candidates)) :
    ∃ t sig, p.typed.valueTypes.lookup callee = some t ∧ p.module.types.signature? t = some sig ∧
      List.Forall₂ (p.typed.Fits p.module.types) sig.params args := by
  obtain ⟨t, ts, ht, hnotes, happlies⟩ := hfits
  obtain ⟨j, hj, hrecords⟩ := h.value hcalm ht
  have hargs : ∃ js, List.Forall₂ (w.env.Records s.env) ts js ∧
      List.Forall₂ (fun j v => p.typed.valueTypes.lookup v = some j) js args := by
    clear happlies
    induction hnotes with
    | nil => exact ⟨[], .nil, .nil⟩
    | cons hnote _ ih =>
      obtain ⟨j, hj, hrecords⟩ := h.value hcalm hnote
      obtain ⟨js, hts, hjs⟩ := ih
      exact ⟨j :: js, .cons hrecords hts, .cons hj hjs⟩
  obtain ⟨js, hts, hjs⟩ := hargs
  obtain ⟨⟨ps, r⟩, hsig, hparams⟩ := happlies.signature h.ends.walked.ready.good h.good hrecords hts
  rw [h.types]
  refine ⟨j, ⟨ps, r⟩, hj, hsig, ?_⟩
  -- parameters and types of arguments on the one side, types and arguments on the other
  clear hnotes hts hsig
  induction hjs generalizing ps with
  | nil =>
    cases hparams
    exact .nil
  | cons hj _ ih =>
    cases hparams with
    | cons hp hps => exact .cons ⟨_, hj, hp⟩ (ih _ hps)

end

end Passed

/-- Types are sound in their contexts. If no pass reports a fault, then by the types that are
recorded in the end, what is bound or assigned to a slot fits it; what a function returns or ends
with fits its declared result; the arguments of a call fit the parameters of what is called, and are
as many; and conditions are truth values. -/
theorem passes_fit (tree : Syntax.Tree) (hwf : Resolution.WellFormed tree)
    (hcomplete : Syntax.areCompleteStmts tree.program = true) :
    ∃ p, passes tree = .ok p ∧
      (p.faults = [] → ContextsFit p.lowered.module p.module.types p.typed) := by
  obtain ⟨p, w, s, hpasses, h⟩ := exists_passed hwf hcomplete
  refine ⟨p, hpasses, fun hfaults => ?_⟩
  have hcalm := h.calm hfaults
  have hcalm₀ := h.ends.keeps.grows.toExtends.calm hcalm
  have hwalked := h.ends.walked
  refine
    { binds := fun hx hvalid => ?_
      assigns := fun hx => ?_
      returns := fun ha hf hi hx hvalid => ?_
      returnsFrom := fun hx => enclosed_or_isGlobal h.regular hx
      tails := fun ha hf hb hvalid => ?_
      calls := fun hx => ?_
      branches := fun hx y hy hvalid => ?_
      loops := fun hx hvalid => ?_ }
  · obtain ⟨r, hfits⟩ := h.fitsLine hcalm hx
    exact h.fitsSlot hcalm (h.regular.lines hx) (hfits hvalid)
  · obtain ⟨r, hfits⟩ := h.fitsLine hcalm hx
    obtain ⟨hslot, hvalid⟩ := h.regular.lines hx
    exact h.fitsSlot hcalm hslot (hfits hvalid)
  · have hresult := (Env.Has.of_closed ((h.regular.items ha).func _ hf).result h.regular.types
      hwalked.ready.types).isValid
    exact h.fits_result hcalm ha hf
      ((hwalked.funcs hcalm₀ _ _ _ ha hf).lines _ hi _ hx hresult hvalid)
  · exact h.fits_result hcalm ha hf ((hwalked.funcs hcalm₀ _ _ _ ha hf).tail _ hb hvalid)
  · obtain ⟨r, hfits⟩ := hwalked.values hcalm₀ _ _ hx
    exact h.fits_call hcalm hfits.form
  · obtain ⟨r, hfits⟩ := hwalked.values hcalm₀ _ _ hx
    exact h.fits_bool hcalm (hfits.form y hy hvalid)
  · obtain ⟨r, hfits⟩ := hwalked.values hcalm₀ _ _ hx
    exact h.fits_bool hcalm (hfits.form hvalid)

/-- In the example, every value fits: it has bindings, assignments, results, calls and
conditions. -/
theorem passes_fit_contexts : ∃ p, passes contexts = .ok p ∧ p.faults = [] ∧
    ContextsFit p.lowered.module p.module.types p.typed := by
  obtain ⟨p, hp, hfit⟩ := passes_fit contexts wellFormed_contexts complete_contexts
  exact ⟨p, hp, faults_contexts hp, hfit (faults_contexts hp)⟩

end Check

end UnitCheck
