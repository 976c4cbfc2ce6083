import UnitCheck.Proofs.Typing.Items

/-!
# Settling types

At the end of inference, literals get their default types, and every type that was noted is
expanded: a variable that still stands for nothing is reported, once, and becomes the error type. So
a settled type has no variables and no untyped kinds in it (`Env.Final`). As long as nothing is
reported, no variable is left and nothing is cut, so that settling a type does not change its
meaning (`Env.Settles`): what fits before fits in the end.
-/

namespace UnitCheck

open List

/-- A leaf that is solid and no variable. -/
structure TypeTerm.isFinal (clean : Prop) (u : TypeTerm) : Prop extends u.isSolid clean where
  ne_var : ∀ v, u ≠ .var v

/-- Filling a term: its leaves become final if no variable is left open and nothing is cut, or else
something is wrong. -/
theorem TypeTerm.Fills.leaves_isFinal {clean clean' D : Prop} {R : VarId → TypeTerm → Prop}
    {n : Nat} {u u' : TypeTerm} (h : Fills D R n u u') (hclean : clean' → clean) (hD : D → ¬ clean')
    (hR : ∀ v w, R v w → w = .error ∧ ¬ clean') (hu : u.Leaves (isSolid clean)) :
    u'.Leaves (TypeTerm.isFinal clean') := by
  have herror (hnot : ¬ clean') : error.Leaves (TypeTerm.isFinal clean') :=
    .atom ⟨⟨rfl, nofun, fun hc => absurd hc hnot⟩, nofun⟩
  induction h with
  | deep hdeep => exact herror (hD hdeep)
  | missing =>
    cases hu with
    | missing hu => exact absurd rfl hu.ne_missing
  | atom =>
    cases hu with
    | atom hu => exact .atom ⟨hu.mono hclean, nofun⟩
  | wrap _ ih =>
    cases hu with
    | wrap hu => exact .wrap (ih hu)
  | @fn n us us' r r' hlen _ _ ihps ihr =>
    cases hu with
    | fn hps hr =>
      refine .fn (fun q' hq' => ?_) (ihr hr)
      obtain ⟨k, hk, rfl⟩ := mem_iff_getElem.1 hq'
      have hq := List.getElem?_eq_getElem (hlen ▸ hk : k < us.length)
      exact ihps k _ _ hq (List.getElem?_eq_getElem hk) (hps _ (mem_of_getElem? hq))
  | var h =>
    obtain ⟨rfl, hnot⟩ := hR _ _ h
    exact herror hnot

namespace Typing

open Code
open Run (Gives)

variable {clean : Prop} {m : Module} {e e' e'' : Env} {i j : TypeId} {s s' : State}

/-! ## Variables that stand for nothing -/

def Env.reported (e : Env) (v : VarId) : Env :=
  { e with unsettled := v :: e.unsettled, faults := e.faults.push (e.unresolved v) }

variable {v : VarId} {k : IdKind} {notes : List (Id k × TypeId)} {n : Nat} {y : Id k × TypeId}
  {w : State}

theorem Env.Good.keeps_reported (good : e.Good) (hle : v.index ≤ e.count)
    (hv : v ∉ e.unsettled) : e.Keeps (e.reported v) := by
  refine ⟨good.congr rfl .refl rfl rfl fun f hf => ?_, .refl _, rfl, rfl, rfl, subset_cons_self _ _,
    ?_, fun h => ⟨nodup_cons.2 ⟨hv, h.nodup⟩, forall_mem_cons.2 ⟨hle, h.le_count⟩, ?_⟩⟩
  · obtain hf | rfl : f ∈ e.faults.toList ∨ f = e.unresolved v := by simpa [reported] using hf
    · exact good.faults f hf
    · have hne : FaultCode.unresolvedType ≠ .internalError := by decide
      exact fun hcycle => hne hcycle.1
  · simp [reported]
  · show (e.faults.push (e.unresolved v)).toList.filter _ =
      (v :: e.unsettled).reverse.map e.unresolved
    rw [Array.toList_push, filter_append, h.reports, reverse_cons, map_append]
    rfl

/-- A variable that was left open is filled with the error type, and has been reported. -/
theorem fillable_unsettled : Fillable (fun e v u => u = .error ∧ v ∈ e.unsettled) unsettled where
  mono hkeeps h := ⟨h.1, hkeeps.grows.unsettled h.2⟩
  leaf {e v i} good hi hview _ := by
    have hdone {e' : Env} (hkeeps : e.Keeps e') (hmem : v ∈ e'.unsettled) :
        e.Keeps e' ∧ Builtin.error ≠ 0 ∧ e'.Over Builtin.error ∧
          ∃ u, e'.types.Reads Builtin.error u ∧ u = .error ∧ v ∈ e'.unsettled := by
      have herror := hkeeps.good.types.view_error
      exact ⟨hkeeps, by decide, .atom herror, _, .atom herror, rfl, hmem⟩
    refine .get_bind ?_
    by_cases hmem : v ∈ e.unsettled
    · simp only [contains_iff_mem.2 hmem]
      exact hdone (.refl good) hmem
    · have hnot : e.unsettled.contains v = false := by simpa using hmem
      simp only [hnot]
      exact hdone (good.keeps_reported (hi.var_bound hview).2 hmem) mem_cons_self

/-! ## Settled types -/

/-- The type, as the table has it, has no variables and no untyped kinds in it. -/
def Env.Final (clean : Prop) (e : Env) (i : TypeId) : Prop :=
  ∃ u, e.types.Reads i u ∧ u.Leaves (TypeTerm.isFinal (e.Calm clean))

/-- What settling a type gives. If nothing is wrong, the result is written as what it means. -/
structure Env.Settles (clean : Prop) (e : Env) (i j : TypeId) (e' : Env) : Prop where
  isOver : e'.Over j
  isFinal : e'.Final clean j
  same : e'.Calm clean → ∀ u, e.Denotes i u → e'.types.Reads j u

theorem Env.Final.mono (h : e.Final clean i) (good : e.Good) (hkeeps : e.Keeps e') :
    e'.Final clean i := by
  obtain ⟨u, hread, hfinal⟩ := h
  refine ⟨u, hread.mono good.types hkeeps.grows.types, hfinal.mono fun l hl => ⟨?_, hl.ne_var⟩⟩
  exact hl.toisSolid.mono hkeeps.grows.toExtends.calm

namespace Env.Settles

theorem after (h : e.Settles clean i j e') (good : e'.Good) (hkeeps : e'.Keeps e'') :
    e.Settles clean i j e'' where
  isOver := hkeeps.grows.isOver good h.isOver
  isFinal := h.isFinal.mono good hkeeps
  same hc u hu := (h.same (hkeeps.grows.toExtends.calm hc) u hu).mono good.types hkeeps.grows.types

theorem before (hkeeps : e.Keeps e') (good : e.Good) (hi : e.Over i)
    (h : e'.Settles clean i j e'') : e.Settles clean i j e'' where
  isOver := h.isOver
  isFinal := h.isFinal
  same hc u hu := h.same hc u ((hkeeps.grows.denotes_iff good hi).2 hu)

theorem of_view_eq {k : TypeId} (h : e.Settles clean i j e') (hj : j ≠ 0)
    (hview : e'.types.view k = e'.types.view j) : e.Settles clean i k e' where
  isOver := h.isOver.of_view_eq hview (.inr hj)
  isFinal := h.isFinal.imp fun _ hu => ⟨hu.1.of_view_eq hview hj, hu.2⟩
  same hc u hu := (h.same hc u hu).of_view_eq hview hj

end Env.Settles

theorem Env.Once.not_calm (h : e.Once) (hv : v ∈ e.unsettled) : ¬ e.Calm clean := by
  intro hcalm
  have hreports := h.reports
  rw [hcalm.2] at hreports
  have hnil : e.unsettled = [] := by simpa using hreports.symm
  rw [hnil] at hv
  cases hv

theorem yields_expand_unsettled (good : e.Good) (hone : e.Once) (hi : e.Has clean i) :
    Yields (expand unsettled i) e fun j e' => e.Keeps e' ∧ e.Settles clean i j e' := by
  refine (fillable_unsettled.expansion.yields_expandAt good hi.isOver).mono fun j e' h =>
    ⟨h.toKeeps, h.isOver, ?_, ?_⟩
  · obtain ⟨u, hu⟩ := good.total hi.isOver
    obtain ⟨u', hread, hfills⟩ := h.reading hu
    refine ⟨u', hread, hfills.leaves_isFinal h.grows.toExtends.calm ?_ ?_ (hi.solid u hu)⟩
    · exact Env.not_calm
    · exact fun v w hw => ⟨hw.1, (h.grows.once hone).not_calm hw.2⟩
  · intro hcalm u hu
    obtain ⟨u', hread, hfills⟩ := h.reading hu
    have hsame : TypeTerm.Fills False (fun _ _ => False) depthLimit u u' :=
      hfills.mono (fun hne => hne hcalm.2) fun v w hw => (h.grows.once hone).not_calm hw.2 hcalm
    rwa [hsame.eq_self.1] at hread

/-! ## The end of inference -/

/-- The types of slots and values have been settled, those of declarations are solid. -/
structure Concludes (clean : Prop) (w s : State) : Prop where
  keeps : w.env.Keeps s.env
  sameValues : s.valueTypes = w.valueTypes
  sameLocals : s.localTypes = w.localTypes
  decls : ∀ y ∈ s.declTypes, y ∈ w.declTypes ∨ s.env.Final clean y.2

namespace Concludes

variable {w : State}

theorem refl (good : w.env.Good) : Concludes clean w w := ⟨.refl good, rfl, rfl, fun _ => .inl⟩

theorem trans (h : Concludes clean w s) (h' : Concludes clean s s') : Concludes clean w s' where
  keeps := h.keeps.trans h'.keeps
  sameValues := h'.sameValues.trans h.sameValues
  sameLocals := h'.sameLocals.trans h.sameLocals
  decls y hy := (h'.decls y hy).elim
    (fun hy => (h.decls y hy).imp_right fun hfinal => hfinal.mono h.keeps.good h'.keeps) .inr

theorem of_keeps (h : w.env.Keeps e) : Concludes clean w { w with env := e } :=
  ⟨h, rfl, rfl, fun _ => .inl⟩

end Concludes

theorem Env.Settles.ne_zero (h : e.Settles clean i j e') : j ≠ 0 := by
  rintro rfl
  obtain ⟨u, hread, hfinal⟩ := h.isFinal
  rw [hread.functional .missing] at hfinal
  cases hfinal with
  | missing hfinal => exact hfinal.ne_missing rfl

theorem Env.Settles.withModifier (h : e.Settles clean i j e') (good : e'.Good) (x : Modifier) :
    Yields (withModifier j x) e' fun k e'' => e'.Keeps e'' ∧ e.Settles clean i k e'' := by
  obtain hzero | ⟨ty, hlook⟩ := h.isOver.eq_zero_or_lookup?
  · exact absurd hzero h.ne_zero
  · refine (yields_withModifier good hlook x).mono fun k e'' hmade => ⟨hmade.toKeeps, ?_⟩
    refine (h.after good hmade.toKeeps).of_view_eq h.ne_zero ?_
    exact TypeTable.view_congr hmade.lookup? (hmade.grows.types.lookup? hlook)

def SettledAs {k : IdKind} (clean : Prop) (e : Env) (notes : List (Id k × TypeId)) (e' : Env)
    (i : Nat) (y : Id k × TypeId) : Prop :=
  y.1 = ⟨i⟩ ∧ ∃ t, notes.lookup ⟨i⟩ = some t ∧ e.Settles clean t y.2 e'

theorem SettledAs.after
    (h : SettledAs clean e notes e' n y) (good : e'.Good) (hkeeps : e'.Keeps e'') :
    SettledAs clean e notes e'' n y := by
  obtain ⟨hkey, t, ht, hsettles⟩ := h
  exact ⟨hkey, t, ht, hsettles.after good hkeeps⟩

theorem SettledAs.before
    {t : TypeId} (hkeeps : e.Keeps e') (good : e.Good) (ht : notes.lookup ⟨n⟩ = some t)
    (hover : e.Over t)
    (h : SettledAs clean e' notes e'' n y) : SettledAs clean e notes e'' n y := by
  obtain ⟨hkey, t', ht', hsettles⟩ := h
  cases ht.symm.trans ht'
  exact ⟨hkey, t, ht, hsettles.before hkeeps good hover⟩

theorem gives_settleValues {ks : List Nat} (good : s.env.Good) (hone : s.env.Once)
    (hks : ∀ i ∈ ks, ∃ t, s.valueTypes.lookup ⟨i⟩ = some t ∧ s.env.Has clean t) :
    Gives (settleValues ks) s fun out s' => Concludes clean s s' ∧
      List.Forall₂ (SettledAs clean s.env s.valueTypes s'.env) ks out := by
  induction ks generalizing s with
  | nil => exact .pure ⟨.refl good, .nil⟩
  | cons i ks ih =>
    obtain ⟨⟨t, ht, hhas⟩, hks⟩ := forall_mem_cons.1 hks
    refine .step rfl ?_
    rw [ht]
    obtain ⟨hkeeps, hsettles⟩ := yields_expand_unsettled good hone hhas
    have h1 : Concludes clean s { s with env := (expand unsettled t s.env).2 } := .of_keeps hkeeps
    refine .step rfl ((ih hkeeps.good (hkeeps.grows.once hone) fun j hj => ?_).bind ?_)
    · obtain ⟨t', ht', hhas'⟩ := hks j hj
      exact ⟨t', ht', hhas'.mono (.of_keeps good hkeeps)⟩
    · intro out s2 ⟨h2, hout⟩
      refine .pure ⟨h1.trans h2, .cons ⟨rfl, t, ht, hsettles.after hkeeps.good h2.keeps⟩ ?_⟩
      refine ((forall₂_and_left _ _).2 ⟨hks, hout⟩).imp ?_
      rintro j y ⟨⟨t', ht', hhas'⟩, hsettled⟩
      exact hsettled.before hkeeps good ht' hhas'.isOver

theorem gives_settleLocals {L : List (Local × Nat)} (good : s.env.Good) (hone : s.env.Once)
    (hL : ∀ x ∈ L, ∃ t, s.localTypes.lookup ⟨x.2⟩ = some t ∧ s.env.Has clean t) :
    Gives (settleLocals L) s fun out s' => Concludes clean s s' ∧
      List.Forall₂ (fun x => SettledAs clean s.env s.localTypes s'.env x.2) L out := by
  induction L generalizing s with
  | nil => exact .pure ⟨.refl good, .nil⟩
  | cons x L ih =>
    obtain ⟨l, i⟩ := x
    obtain ⟨⟨t, ht, hhas⟩, hL⟩ := forall_mem_cons.1 hL
    -- whatever is done to the first type, the others are settled behind it
    have hrest {s1 : State} {j : TypeId} (h1 : Concludes clean s s1)
        (hsettles : s.env.Settles clean t j s1.env) :
        Gives (do return (⟨i⟩, j) :: (← settleLocals L)) s1 fun out s' => Concludes clean s s' ∧
          List.Forall₂ (fun x => SettledAs clean s.env s.localTypes s'.env x.2) ((l, i) :: L)
            out := by
      refine (ih h1.keeps.good (h1.keeps.grows.once hone) fun x hx => ?_).bind ?_
      · obtain ⟨t', ht', hhas'⟩ := hL x hx
        exact ⟨t', h1.sameLocals ▸ ht', hhas'.mono (.of_keeps good h1.keeps)⟩
      · intro out s2 ⟨h2, hout⟩
        refine .pure ⟨h1.trans h2, .cons ⟨rfl, t, ht, hsettles.after h1.keeps.good h2.keeps⟩ ?_⟩
        rw [h1.sameLocals] at hout
        refine ((forall₂_and_left _ _).2 ⟨hL, hout⟩).imp ?_
        rintro x y ⟨⟨t', ht', hhas'⟩, hsettled⟩
        exact hsettled.before h1.keeps good ht' hhas'.isOver
    have hdecl {s1 : State} {j : TypeId} (h1 : Concludes clean s s1)
        (hsettles : s.env.Settles clean t j s1.env) :
        Gives (do
          if l.decl.isValid then noteDecl l.decl j
          return (⟨i⟩, j) :: (← settleLocals L)) s1 fun out s' => Concludes clean s s' ∧
            List.Forall₂ (fun x => SettledAs clean s.env s.localTypes s'.env x.2) ((l, i) :: L)
              out := by
      split
      next =>
        have h2 : Concludes clean s1 { s1 with declTypes := (l.decl, j) :: s1.declTypes } :=
          ⟨.refl h1.keeps.good, rfl, rfl, forall_mem_cons.2 ⟨.inr hsettles.isFinal, fun _ => .inl⟩⟩
        exact .step rfl (hrest (h1.trans h2) hsettles)
      next => exact hrest h1 hsettles
    refine .step rfl ?_
    rw [ht]
    obtain ⟨hkeeps, hsettles⟩ := yields_expand_unsettled good hone hhas
    dsimp only
    split
    next => exact .step rfl (hdecl (.of_keeps hkeeps) hsettles)
    next =>
      obtain ⟨hkeeps', hsettles'⟩ := hsettles.withModifier hkeeps.good l.modifier
      exact .step rfl (hdecl (.of_keeps (hkeeps.trans hkeeps')) hsettles')

/-! ## Inference as a whole -/

theorem Walked.moves (h : Walked clean m w) (hmoves : w.env.Moves clean e) :
    Walked clean m { w with env := e } := by
  have hvisits : Visits clean m (fun _ => True) w [] { w with env := e } := .of_moves hmoves
  have hlater := hvisits.later
  refine ⟨hvisits.ready h.ready, hmoves.ext.once h.once, h.noted,
    fun hc => h.nodup (hvisits.calm hc),
    fun hc => h.defined (hvisits.calm hc), fun hc v x hx => ?_, fun hc => ?_,
      fun hc d i f hi hf => ?_⟩
  · exact (h.values (hvisits.calm hc) v x hx).imp fun _ hfits => hlater.fitsValue hfits
  · exact hlater.fitsLines (h.globals (hvisits.calm hc))
  · exact hlater.fitsFunc (h.funcs (hvisits.calm hc) d i f hi hf)

/-- What inference ends with: the types of a walk, settled. -/
structure Ends (clean : Prop) (m : Module) (w : State) (locals : List (LocalId × TypeId))
    (values : List (ValueId × TypeId)) (s : State) : Prop extends Concludes clean w s where
  walked : Walked clean m w
  settledLocals : List.Forall₂ (fun x => SettledAs clean w.env w.localTypes s.env x.2)
    (m.locals.toList.zipIdx.drop 1) locals
  settledValues : List.Forall₂ (SettledAs clean w.env w.valueTypes s.env)
    ((List.range m.values.size).drop 1) values

theorem mem_values_iff {i : Nat} : i ∈ (List.range n).drop 1 ↔ 0 < i ∧ i < n := by
  rw [range_eq_range', drop_range', mem_range'_1]
  omega

theorem gives_applyDefaults (h : Walked clean m w) :
    Gives (solve applyDefaults) w fun _ w' => Walked clean m w' := by
  have good := h.ready.good
  refine ⟨(), _, rfl, h.moves (.of_binds good (yields_applyDefaults good).toBinds ?_)⟩
  refine forall_mem_cons.2 ⟨?_, forall_mem_singleton.2 ?_⟩
  · exact good.has_builtin rfl rfl (.atom rfl fun _ => nofun)
  · exact good.has_builtin rfl rfl (.atom rfl fun _ => nofun)

theorem gives_inferModule (hm : m.Regular clean) :
    Gives (inferModule m) ⟨.initial m.types, [], [], [], [], 0⟩ fun out s =>
      ∃ w, Ends clean m w out.1 out.2 s := by
  have hsplit : inferModule m = do
      (do
        seedLocals m (m.locals.toList.zipIdx.drop 1)
        inferGlobals m m.globals
        inferItems m m.sortedItems)
      solve applyDefaults
      let localTypes ← settleLocals (m.locals.toList.zipIdx.drop 1)
      let valueTypes ← settleValues ((List.range m.values.size).drop 1)
      return (localTypes, valueTypes) := by
    simp only [bind_assoc]
    rfl
  rw [hsplit]
  refine (gives_walk hm).bind fun _ w0 hw0 => (gives_applyDefaults hw0).bind fun _ w hw => ?_
  have good := hw.ready.good
  have hlocals (x : Local × Nat) (hx : x ∈ m.locals.toList.zipIdx.drop 1) :
      ∃ t, w.localTypes.lookup ⟨x.2⟩ = some t ∧ w.env.Has clean t := by
    obtain ⟨t, ht, hhas, -⟩ := hw.ready.locals (mem_locals_iff.1 hx)
    exact ⟨t, ht, hhas⟩
  have hvalues (i : Nat) (hi : i ∈ (List.range m.values.size).drop 1) :
      ∃ t, w.valueTypes.lookup ⟨i⟩ = some t ∧ w.env.Has clean t := by
    obtain ⟨hpos, hlt⟩ := mem_values_iff.1 hi
    obtain ⟨_, hmem⟩ := hw.noted ⟨i⟩ (by simpa [Id.isValid] using Nat.ne_of_gt hpos) hlt
    obtain ⟨t, ht, hmem⟩ := exists_lookup hmem
    exact ⟨t, ht, hw.ready.values _ hmem⟩
  refine (gives_settleLocals good hw.once hlocals).bind ?_
  rintro locals s1 ⟨h1, hsettled⟩
  have hvalues1 (i : Nat) (hi : i ∈ (List.range m.values.size).drop 1) :
      ∃ t, s1.valueTypes.lookup ⟨i⟩ = some t ∧ s1.env.Has clean t := by
    obtain ⟨t, ht, hhas⟩ := hvalues i hi
    exact ⟨t, h1.sameValues ▸ ht, hhas.mono (.of_keeps good h1.keeps)⟩
  refine (gives_settleValues h1.keeps.good (h1.keeps.grows.once hw.once) hvalues1).bind ?_
  rintro values s2 ⟨h2, hsettled'⟩
  refine .pure ⟨w, h1.trans h2, hw, ?_, ?_⟩
  · exact hsettled.imp fun x y h => h.after h1.keeps.good h2.keeps
  · rw [h1.sameValues] at hsettled'
    refine ((forall₂_and_left _ _).2 ⟨hvalues, hsettled'⟩).imp ?_
    rintro i y ⟨⟨t, ht, hhas⟩, h⟩
    exact h.before h1.keeps good ht hhas.isOver

end Typing

end UnitCheck
