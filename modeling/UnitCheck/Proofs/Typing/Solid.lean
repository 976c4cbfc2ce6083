import UnitCheck.Proofs.Syntax.Complete
import UnitCheck.Proofs.Typing.Reachable
import UnitCheck.Typing.Infer

/-!
# Solid types

The type of what could not be typed and a missing type fit everywhere, and a number fits an untyped
kind without becoming equal to it. So a fit says something only of *solid* types, in whose meaning
none of these occurs. Inference never makes a type with a missing or an untyped part. It makes the
error type where it reports a fault, and where the code that it is given stands for a fault of an
earlier pass. As long as nothing is wrong (`Env.Calm`), every type of the environment in use is
solid (`Env.Has`), and every step of inference keeps it so (`Env.Moves`).

Each operation on the variables has one description here, in these two terms. `Env.Has` is
conditional on the absence of faults and not an assumption about the run, so that operations behind
a fault need no descriptions of their own. Everything is said for code of which `clean` holds or
not: clean code is free of the traces of earlier faults.
-/

namespace UnitCheck

open TypeTable

/-- A leaf that is known, and settled unless it is a variable. If all is `clean`, it is not the
error type. -/
structure TypeTerm.isSolid (clean : Prop) (u : TypeTerm) : Prop where
  typed : u.isTyped
  ne_missing : u ≠ .missing
  ne_error : clean → u ≠ .error

namespace TypeTerm.isSolid

variable {clean clean' : Prop} {m : Code.Module}

theorem mono {u : TypeTerm} (h : u.isSolid clean) (hc : clean' → clean) : u.isSolid clean' :=
  ⟨h.typed, h.ne_missing, fun hclean => h.ne_error (hc hclean)⟩

theorem var (v : VarId) : (TypeTerm.var v).isSolid clean := ⟨trivial, nofun, fun _ => nofun⟩

/-- An atom that is not untyped is solid unless it is the error type. -/
theorem atom {x : Atom} (h : x.kind.isUntyped = false) (herror : clean → x.kind ≠ .error) :
    (TypeTerm.atom x).isSolid clean := by
  refine ⟨?_, nofun, fun hclean hx => ?_⟩
  · cases x <;> first | exact h | exact trivial
  · cases hx
    exact herror hclean rfl

end TypeTerm.isSolid

/-! ## Types without variables -/

/-- A type of a table that has no variables and is solid. -/
def TypeTable.Closed (clean : Prop) (T : TypeTable) (i : TypeId) : Prop :=
  T.Over 0 i ∧ ∃ u, T.Reads i u ∧ u.Leaves (TypeTerm.isSolid clean)

/-- Where no variables are, bindings change nothing. -/
theorem TypeTable.Over.denotes_of_reads {T : TypeTable} {σ : VarId → Option TypeId} {i : TypeId}
    {u : TypeTerm} (h : T.Over 0 i) (hu : T.Reads i u) : Denotes T σ i u := by
  induction h generalizing u with
  | none =>
    rw [hu.functional .missing]
    exact .missing
  | atom h =>
    rw [hu.functional (.atom h)]
    exact .atom h
  | wrap h _ ih =>
    obtain ⟨w, rfl, hw⟩ := hu.of_wrap h
    exact .wrap h (ih hw)
  | fn h _ _ ihps ihr =>
    obtain ⟨us, w, rfl, hlen, hw, hus⟩ := hu.of_fn h
    exact .fn h hlen (fun k p q hp hq => ihps p (List.mem_of_getElem? hp) (hus k p q hp hq))
      (ihr hw)
  | @var _ v _ hvalid hle =>
    rw [Id.isValid, Nat.le_zero.1 hle] at hvalid
    cases hvalid

namespace Typing

variable {clean : Prop} {e e' e'' : Env} {i j t a b : TypeId}

namespace Env

/-- Nothing is wrong: neither with the code, nor has anything been reported. -/
def Calm (clean : Prop) (e : Env) : Prop := clean ∧ e.faults = #[]

theorem Extends.calm (h : e.Extends e') (hcalm : e'.Calm clean) : e.Calm clean :=
  ⟨hcalm.1, h.faults_eq hcalm.2⟩

/-- A type of the environment that is solid. -/
structure Has (clean : Prop) (e : Env) (i : TypeId) : Prop where
  isOver : e.Over i
  solid : e.All (TypeTerm.isSolid (e.Calm clean)) i

/-- A step of inference. It takes nothing back, and types stay solid. -/
structure Moves (clean : Prop) (e e' : Env) : Prop where
  start : e.Good
  good : e'.Good
  ext : e.Extends e'
  keeps : ∀ {i : TypeId}, e.Over i → e.All (TypeTerm.isSolid (e.Calm clean)) i →
    e'.All (TypeTerm.isSolid (e'.Calm clean)) i

/-- What is solid stays so where less has to be ruled out. -/
theorem All.calm (h : e'.All (TypeTerm.isSolid (e.Calm clean)) i) (hext : e.Extends e') :
    e'.All (TypeTerm.isSolid (e'.Calm clean)) i :=
  fun u hu => (h u hu).mono fun _ hl => hl.mono hext.calm

namespace Moves

theorem refl (good : e.Good) : e.Moves clean e := ⟨good, good, .refl e, fun _ h => h⟩

theorem trans (h : e.Moves clean e') (h' : e'.Moves clean e'') : e.Moves clean e'' where
  start := h.start
  good := h'.good
  ext := h.ext.trans h'.ext
  keeps hi hsolid := h'.keeps (h.ext.isOver h.start hi) (h.keeps hi hsolid)

theorem of_keeps (good : e.Good) (h : e.Keeps e') : e.Moves clean e' :=
  ⟨good, h.good, h.grows.toExtends, fun hi hsolid =>
    ((h.grows.all_iff good hi).2 hsolid).calm h.grows.toExtends⟩

theorem of_binds {S : List TypeId} (good : e.Good) (h : e.Binds S e')
    (hS : ∀ s ∈ S, e.Has clean s) : e.Moves clean e' :=
  ⟨good, h.good, h.ext,
    fun hi hsolid => (h.keeps (fun s hs => (hS s hs).solid) hi hsolid).calm h.ext⟩

theorem of_bindings (good : e.Good) (good' : e'.Good) (hext : e.Extends e')
    (hbindings : e'.bindings = e.bindings) : e.Moves clean e' := by
  refine ⟨good, good', hext, fun {i} hi hsolid => .calm (fun u hu => ?_) hext⟩
  have hsame : e'.binding? = e.binding? := by
    funext v
    rw [binding?, binding?, hbindings]
  obtain ⟨u', hu'⟩ := good.total hi
  have hlater := Denotes.mono hu' good.types hext.types
  rw [← hsame] at hlater
  rw [hu.functional hlater]
  exact hsolid u' hu'

end Moves

namespace Has

theorem mono (h : e.Has clean i) (hm : e.Moves clean e') : e'.Has clean i :=
  ⟨hm.ext.isOver hm.start h.isOver, hm.keeps h.isOver h.solid⟩

theorem of_atom {x : Atom} (hview : e.types.view i = .atom x)
    (hx : (TypeTerm.atom x).isSolid (e.Calm clean)) : e.Has clean i := by
  refine ⟨.atom hview, fun u hu => ?_⟩
  rw [hu.functional (.atom hview)]
  exact .atom hx

variable {w : Wrapper} {ps : List TypeId}

theorem elem (h : e.Has clean i) (hview : e.types.view i = .wrap w j) : e.Has clean j :=
  ⟨h.isOver.elem hview, h.solid.elem hview⟩

theorem wrap (h : e.Has clean j) (hview : e.types.view i = .wrap w j) : e.Has clean i := by
  refine ⟨.wrap hview h.isOver, fun u hu => ?_⟩
  obtain ⟨u', rfl, hu'⟩ := hu.of_wrap hview
  exact .wrap (h.solid u' hu')

theorem signature (h : e.Has clean i) (good : e.Good)
    (hview : e.types.view i = .fn ps j) : (∀ p ∈ ps, e.Has clean p) ∧ e.Has clean j := by
  have hparts := h.isOver.signature hview
  have hsolid := h.solid.signature good h.isOver hview
  exact ⟨fun p hp => ⟨hparts.1 p hp, hsolid.1 p hp⟩, hparts.2, hsolid.2⟩

theorem fn (hps : ∀ p ∈ ps, e.Has clean p) (hr : e.Has clean j)
    (hview : e.types.view i = .fn ps j) : e.Has clean i := by
  refine ⟨.fn hview (fun p hp => (hps p hp).isOver) hr.isOver, fun u hu => ?_⟩
  obtain ⟨us, w, rfl, hlen, hw, hus⟩ := hu.of_fn hview
  refine .fn (fun q hq => ?_) (hr.solid w hw)
  obtain ⟨k, hk, rfl⟩ := List.mem_iff_getElem.1 hq
  have hp := List.getElem?_eq_getElem (hlen ▸ hk : k < ps.length)
  exact (hps _ (List.mem_of_getElem? hp)).solid _ (hus k _ _ hp (List.getElem?_eq_getElem hk))

theorem of_closed {T : TypeTable} (h : T.Closed clean i) (wf : T.WellFormed)
    (hext : T.Extends e.types) : e.Has clean i := by
  obtain ⟨hover, u, hread, hsolid⟩ := h
  refine ⟨hover.mono wf hext (Nat.zero_le _), fun u' hu' => ?_⟩
  have hu : e.Denotes i u := Denotes.mono (hover.denotes_of_reads hread) wf hext
  rw [hu'.functional hu]
  exact hsolid.mono fun _ hl => hl.mono And.left

theorem ne_zero (h : e.Has clean i) : i ≠ 0 := by
  rintro rfl
  cases h.solid _ .missing with
  | missing hsolid => exact hsolid.ne_missing rfl

theorem isValid (h : e.Has clean i) : i.isValid = true := by
  obtain ⟨_ | n⟩ := i
  · exact absurd rfl h.ne_zero
  · rfl

end Has

theorem Good.has_builtin (good : e.Good) {k : Nat} {s : Shape} {x : Atom}
    (h : builtinShapes[k]? = some s) (hx : s.atom? = some x)
    (hsolid : (TypeTerm.atom x).isSolid (e.Calm clean)) : e.Has clean ⟨k + 1⟩ :=
  .of_atom (good.types.view_builtin h hx) hsolid

theorem Good.has_error (good : e.Good) (h : ¬ e.Calm clean) : e.Has clean Builtin.error :=
  .of_atom good.types.view_error ⟨rfl, nofun, fun hcalm => absurd hcalm h⟩

theorem not_calm (h : e.faults ≠ #[]) : ¬ e.Calm clean := fun hcalm => h hcalm.2

end Env

/-! ## Operations on types -/

theorem view_of_describe {T : TypeTable} {w : Wrapper}
    (h : (T.describe i).shape.wrap? = some (w, j)) : T.view i = .wrap w j := by
  unfold TypeTable.describe at h
  cases hlook : T.lookup? i with
  | none =>
    rw [hlook] at h
    cases h
  | some ty =>
    rw [hlook] at h
    exact view_of_wrap hlook h

/-- A type that means the same as another one from now on. -/
structure Env.Aliases (e : Env) (i j : TypeId) (e' : Env) : Prop extends e.Keeps e' where
  isOver : e'.Over j
  same : ∀ {f : Env} {u : TypeTerm}, e'.Extends f → (f.Denotes i u ↔ f.Denotes j u)

theorem Env.Resolves.aliases (h : e.Resolves i j e') : e.Aliases i j e' :=
  ⟨h.toKeeps, h.isOver, h.same⟩

namespace Env.Aliases

theorem moves (h : e.Aliases i j e') (good : e.Good) (clean : Prop) : e.Moves clean e' :=
  .of_keeps good h.toKeeps

theorem has (h : e.Aliases i j e') (good : e.Good) (hi : e.Has clean i) : e'.Has clean j := by
  refine ⟨h.isOver, All.calm (fun u hu => ?_) h.grows.toExtends⟩
  rw [← h.same (.refl e'), h.grows.denotes_iff good hi.isOver] at hu
  exact hi.solid u hu

theorem agree_left (h : e.Aliases i j e') (hext : e'.Extends e'') (hagree : e''.Agree j b) :
    e''.Agree i b :=
  fun _ hf _ _ hu hw => hagree hf ((h.same (hext.trans hf)).1 hu) hw

end Env.Aliases

theorem yields_withModifier_aliases (good : e.Good) (hi : e.Over i) (m : Modifier) :
    Yields (withModifier i m) e (e.Aliases i) := by
  obtain rfl | ⟨ty, hlook⟩ := hi.eq_zero_or_lookup?
  · exact ⟨.refl good, .none, fun _ => .rfl⟩
  · refine (yields_withModifier good hlook m).mono fun j e' hmade => ?_
    have hlook' := hmade.grows.types.lookup? hlook
    have hi' := hmade.grows.isOver good hi
    have hview : e'.types.view j = e'.types.view i := view_congr hmade.lookup? hlook'
    have hi0 : i ≠ 0 := by
      rintro rfl
      cases hlook
    have hj0 : j ≠ 0 := by
      rintro rfl
      cases hmade.lookup?
    have hj : e'.Over j := hi'.of_view_eq hview (.inr hi0)
    refine ⟨hmade.toKeeps, hj, fun hext => ⟨?_, ?_⟩⟩
    · exact Env.denotes_of_view_eq hmade.good hj hi' hi0 hview hext
    · exact Env.denotes_of_view_eq hmade.good hi' hj hj0 hview.symm hext

/-- A computation leads to a solid type and keeps all others solid. -/
abbrev Env.Gains (clean : Prop) (e : Env) (i : TypeId) (e' : Env) : Prop :=
  e.Moves clean e' ∧ e'.Has clean i

/-- A new variable stands for nothing, so it is solid. -/
theorem Env.Fresh.gains (h : e.Fresh i e') (good : e.Good) (hbindings : e'.bindings = e.bindings) :
    e.Gains clean i e' := by
  refine ⟨.of_bindings good h.good h.ext hbindings, h.isOver, fun u hu => ?_⟩
  rw [hu.functional (.free h.view h.binding?)]
  exact .var (.var _)

variable (clean) in
theorem yields_fresh_has (good : e.Good) (span : Span) :
    Yields (fresh span) e (e.Gains clean) :=
  (yields_fresh good span).1.gains good rfl

variable (clean) in
theorem yields_freshLiteral_has (good : e.Good) {k : Kind} (hk : k.isUntyped) (span : Span) :
    Yields (freshLiteral k span) e (e.Gains clean) :=
  (yields_freshLiteral good hk span).1.gains good rfl

variable (clean) in
theorem yields_report_fault (good : e.Good) {code : FaultCode} (h : code ≠ .internalError)
    (h' : code ≠ .unresolvedType) (span : Span) (message : Text) :
    Yields (report (.error code span message)) e fun _ e' => e.Moves clean e' ∧ ¬ e'.Calm clean :=
  (yields_report good (fun hcycle => h hcycle.1) h').mono fun _ _ ⟨hkeeps, hfaults⟩ =>
    ⟨.of_keeps good hkeeps, Env.not_calm hfaults⟩

variable (clean) in
theorem yields_wrongType (good : e.Good) (hi : e.Over i) (span : Span) (before after : Text) :
    Yields (wrongType span before i after) e fun _ e' => e.Moves clean e' ∧ ¬ e'.Calm clean := by
  refine (yields_label good hi).bind fun shown e1 hkeeps => ?_
  refine (yields_report_fault clean hkeeps.good (by decide) (by decide) ..).mono ?_
  rintro _ e2 ⟨hmoves, hfaults⟩
  exact ⟨(Env.Moves.of_keeps good hkeeps).trans hmoves, hfaults⟩

/-- Two types of the environment that are unified agree, or a fault is reported. -/
theorem yields_unify_agree (good : e.Good) (ha : e.Has clean a) (hb : e.Has clean b) (span : Span) :
    Yields (unify a b span) e fun fit e' => e.Moves clean e' ∧
      (fit.isMismatch = true → ¬ e'.Calm clean) ∧ (e'.Calm clean → e'.Agree a b) := by
  have hboth : ∀ s ∈ [a, b], e.Has clean s := by simp [ha, hb]
  refine (sound_unifyAt depthLimit good ha.isOver hb.isOver).bind fun fit e1 h => ?_
  have hmoves : e.Moves clean e1 := .of_binds good h.toBinds hboth
  have hagree (hfit : fit.isMismatch = false) : e1.Agree a b :=
    h.agree hfit fun s hs u hu => ((hboth s hs).solid u hu).mono fun _ hl => hl.typed
  cases fit with
  | ok | needsCopy => exact .pure ⟨hmoves, nofun, fun _ => hagree rfl⟩
  | mismatch r =>
    have hb1 := h.ext.isOver good hb.isOver
    refine (yields_label h.good (h.ext.isOver good ha.isOver)).bind fun _ e2 hkeeps => ?_
    refine (yields_label hkeeps.good (hkeeps.grows.isOver h.good hb1)).bind fun _ e3 hkeeps' => ?_
    refine (yields_report_fault clean hkeeps'.good (by decide) (by decide) ..).bind ?_
    rintro _ e4 ⟨hreport, hfaults⟩
    have hlabels := hmoves.trans (.of_keeps h.good (hkeeps.trans hkeeps'))
    exact ⟨hlabels.trans hreport, fun _ => hfaults, fun hcalm => absurd hcalm hfaults⟩

/-! ## Looking into types -/

theorem yields_describe (i : TypeId) :
    Yields (describe i) e fun ty e' => ty = e.types.describe i ∧ e' = e := ⟨rfl, rfl⟩

theorem yields_kindOf (i : TypeId) : Yields (kindOf i) e fun k e' => k = e.types.kind i ∧ e' = e :=
  ⟨rfl, rfl⟩

theorem yields_resolve_has (good : e.Good) (hi : e.Has clean i) :
    Yields (resolve i) e (e.Gains clean) :=
  (yields_resolve good hi.isOver).mono fun _ _ h =>
    ⟨h.aliases.moves good clean, h.aliases.has good hi⟩

variable (clean) in
theorem yields_hasKind (good : e.Good) (hi : e.Over i) (accepts : Kind → Bool) :
    Yields (hasKind i accepts) e fun _ e' => e.Moves clean e' := by
  refine (yields_resolve good hi).bind fun j e1 h => .get_bind ?_
  have hmoves := h.aliases.moves good clean
  split
  · split <;> exact .pure hmoves
  · exact .pure hmoves

variable (clean) in
theorem yields_isLiteral (good : e.Good) (hi : e.Over i) :
    Yields (isLiteral i) e fun _ e' => e.Moves clean e' :=
  (yields_resolve good hi).bind fun _ _ h => .get_bind (.pure (h.aliases.moves good clean))

theorem yields_throughReference (good : e.Good) (hi : e.Has clean i) :
    Yields (throughReference i) e fun x e' =>
      e.Moves clean e' ∧ e'.Has clean x.1 ∧ x.2 = e'.types.describe x.1 := by
  refine (yields_resolve_has good hi).bind fun j e1 ⟨hmoves, hj⟩ => ?_
  refine (yields_describe j).bind ?_
  rintro _ e1 ⟨rfl, rfl⟩
  split
  next elem helem =>
    have hview : ∃ w, e1.types.view j = .wrap w elem := by
      unfold Shape.referent? at helem
      split at helem
      next isMut x hshape =>
        cases helem
        exact ⟨_, view_of_describe (by rw [hshape]; rfl)⟩
      next => cases helem
    obtain ⟨w, hview⟩ := hview
    refine (yields_resolve_has hmoves.good (hj.elem hview)).bind fun k e2 ⟨hmoves', hk⟩ => ?_
    refine (yields_describe k).bind ?_
    rintro _ _ ⟨rfl, rfl⟩
    exact .pure ⟨hmoves.trans hmoves', hk, rfl⟩
  next =>
    refine (yields_describe j).bind ?_
    rintro _ _ ⟨rfl, rfl⟩
    exact .pure ⟨hmoves, hj, rfl⟩

variable (clean) in
theorem yields_wrongType_error (good : e.Good) (hi : e.Over i) (span : Span) (before after : Text) :
    Yields (do wrongType span before i after; return Builtin.error) e (e.Gains clean) :=
  (yields_wrongType clean good hi span before after).bind fun _ _ ⟨hmoves, hfaults⟩ =>
    .pure ⟨hmoves, hmoves.good.has_error hfaults⟩

theorem Env.Gains.after (h : e.Moves clean e') {a : Solve TypeId}
    (ha : Yields a e' (e'.Gains clean)) : Yields a e' (e.Gains clean) :=
  ha.mono fun _ _ ⟨hmoves, hi⟩ => ⟨h.trans hmoves, hi⟩

theorem yields_elemOf (good : e.Good) (hi : e.Has clean i) (span : Span) :
    Yields (elemOf i span) e (e.Gains clean) := by
  refine (yields_throughReference good hi).bind ?_
  rintro ⟨j, ty⟩ e1 ⟨hmoves, hj, hty⟩
  dsimp only at hj hty ⊢
  split
  next hshape =>
    rw [hty] at hshape
    exact .pure ⟨hmoves, hj.elem (view_of_describe (by rw [hshape]; rfl))⟩
  next => exact .pure ⟨hmoves, hj⟩
  next => exact .after hmoves (yields_fresh_has clean hmoves.good span)
  next => exact .after hmoves (yields_wrongType_error clean hmoves.good hj.isOver ..)

theorem yields_targetOf (good : e.Good) (hi : e.Has clean i) (span : Span) :
    Yields (targetOf i span) e (e.Gains clean) := by
  refine (yields_resolve_has good hi).bind fun j e1 ⟨hmoves, hj⟩ => ?_
  refine (yields_describe j).bind ?_
  rintro _ _ ⟨rfl, rfl⟩
  split
  next hshape => exact .pure ⟨hmoves, hj.elem (view_of_describe (by rw [hshape]; rfl))⟩
  next hshape => exact .pure ⟨hmoves, hj.elem (view_of_describe (by rw [hshape]; rfl))⟩
  next => exact .pure ⟨hmoves, hj⟩
  next => exact .after hmoves (yields_fresh_has clean hmoves.good span)
  next => exact .after hmoves (yields_wrongType_error clean hmoves.good hj.isOver ..)

def fieldsOf (m : Code.Module) (d : DeclId) : List Code.Member :=
  (((m.item? d).bind Code.Item.type).map Code.TypeItem.fields).getD []

theorem yields_fieldOf (good : e.Good) (hi : e.Has clean i) (name : Text) (span : Span)
    (hfields : ∀ (d : DeclId) (x : Code.Member) (e' : Env), e.Extends e' → x ∈ fieldsOf m d →
      e'.Has clean x.type) : Yields (fieldOf m i name span) e (e.Gains clean) := by
  refine (yields_throughReference good hi).bind ?_
  rintro ⟨j, ty⟩ e1 ⟨hmoves, hj, -⟩
  dsimp only at hj ⊢
  split
  next => exact .pure ⟨hmoves, hj⟩
  next => exact .after hmoves (yields_fresh_has clean hmoves.good span)
  next _ d _ _ =>
    split
    next x hx => exact .pure ⟨hmoves, hfields d x e1 hmoves.ext (List.mem_of_find?_eq_some hx)⟩
    next =>
      refine (yields_label hmoves.good hj.isOver).bind fun _ e2 hkeeps => ?_
      refine (yields_report_fault clean hkeeps.good (by decide) (by decide) ..).bind ?_
      rintro _ e3 ⟨hreport, hfaults⟩
      exact ⟨(hmoves.trans (.of_keeps hmoves.good hkeeps)).trans hreport,
        hreport.good.has_error hfaults⟩
  next => exact .after hmoves (yields_wrongType_error clean hmoves.good hj.isOver ..)

/-! ## Literals and operators -/

theorem isDeclared_cases {k : Syntax.LiteralKind} (h : k.isDeclared = true) :
    k = .int ∨ k = .uint ∨ k = .float ∨ k = .true_ ∨ k = .false_ ∨ k = .string ∨ k = .char := by
  obtain ⟨c⟩ := k
  have hle : 1 ≤ c.toNat ∧ c.toNat ≤ 7 := by
    simpa [Syntax.LiteralKind.isDeclared, UInt8.le_iff_toNat_le] using h
  have hcases : c.toNat = 1 ∨ c.toNat = 2 ∨ c.toNat = 3 ∨ c.toNat = 4 ∨ c.toNat = 5 ∨ c.toNat = 6 ∨
      c.toNat = 7 := by omega
  simp only [Syntax.LiteralKind.int, Syntax.LiteralKind.uint, Syntax.LiteralKind.float,
    Syntax.LiteralKind.true_, Syntax.LiteralKind.false_, Syntax.LiteralKind.string,
    Syntax.LiteralKind.char, Syntax.LiteralKind.mk.injEq, ← UInt8.toNat_inj]
  exact hcases

theorem Env.Good.has_unit (good : e.Good) : e.Has clean Builtin.unit :=
  good.has_builtin rfl rfl (.atom rfl fun _ => nofun)

theorem Env.Good.has_bool (good : e.Good) : e.Has clean Builtin.bool :=
  good.has_builtin rfl rfl (.atom rfl fun _ => nofun)

variable (clean) in
theorem yields_inferLiteral (good : e.Good) {kind : Syntax.LiteralKind} (h : kind.isDeclared = true)
    (span : Span) : Yields (inferLiteral kind span) e (e.Gains clean) := by
  obtain rfl | rfl | rfl | rfl | rfl | rfl | rfl := isDeclared_cases h
  · exact yields_freshLiteral_has clean good rfl span
  · exact yields_freshLiteral_has clean good rfl span
  · exact yields_freshLiteral_has clean good rfl span
  · exact .pure ⟨.refl good, good.has_bool⟩
  · exact .pure ⟨.refl good, good.has_bool⟩
  · exact .pure ⟨.refl good, good.has_builtin (k := 5) rfl rfl (.atom rfl fun _ => nofun)⟩
  · exact .pure ⟨.refl good, good.has_builtin (k := 4) rfl rfl (.atom rfl fun _ => nofun)⟩

variable (clean) in
theorem yields_requireOperand (good : e.Good) (hi : e.Over i) (v : ValueId) (op : Text)
    (accepts : Kind → Bool) (what : Text) :
    Yields (requireOperand m v i op accepts what) e fun taken e' =>
      e.Moves clean e' ∧ (taken = false → ¬ e'.Calm clean) := by
  refine (yields_hasKind clean good hi accepts).bind fun taken e1 hmoves => ?_
  cases taken with
  | true => exact .pure ⟨hmoves, nofun⟩
  | false =>
    have hi1 := hmoves.ext.isOver good hi
    refine (yields_wrongType clean hmoves.good hi1 ..).bind fun _ e2 ⟨hmoves', hfaults⟩ => .pure ?_
    exact ⟨hmoves.trans hmoves', fun _ => hfaults⟩

theorem TypeTable.wider_eq (T : TypeTable) (a b : TypeId) : T.wider a b = a ∨ T.wider a b = b := by
  unfold wider
  split
  · exact .inr rfl
  · exact .inl rfl
  · split_ifs <;> simp

theorem yields_unqualified_has (good : e.Good) (hi : e.Has clean i) :
    Yields (unqualified i) e (e.Gains clean) :=
  (yields_withModifier_aliases good hi.isOver .default).mono fun _ _ h => ⟨h.moves good clean, h.has good hi⟩

theorem yields_unifyOperands {β : Type} {f : Fit → Solve β} {Q : β → Env → Prop} (good : e.Good)
    (ha : e.Has clean a) (hb : e.Has clean b) (span : Span)
    (hf : ∀ fit e', e.Moves clean e' → (fit.isMismatch = true → ¬ e'.Calm clean) →
      Yields (f fit) e' Q) :
    Yields (do let fit ← unify (← unqualified a) (← unqualified b) span; f fit) e Q := by
  refine (yields_unqualified_has good ha).bind fun a' e1 ⟨hmoves, ha'⟩ => ?_
  refine (yields_unqualified_has hmoves.good (hb.mono hmoves)).bind fun b' e2 ⟨hmoves', hb'⟩ => ?_
  refine (yields_unify_agree hmoves'.good (ha'.mono hmoves') hb' span).bind ?_
  exact fun fit e3 ⟨hunify, hmismatch, _⟩ =>
    hf fit e3 ((hmoves.trans hmoves').trans hunify) hmismatch

/-- A type of the environment is the error type only behind a fault. -/
theorem Env.Has.error_of_kind (h : e.Has clean i) (good : e.Good) (hk : e.types.kind i = .error) :
    e.Has clean Builtin.error := by
  have hview : e.types.view i = .atom (.plain .error) := by
    unfold kind at hk
    cases hlook : e.types.lookup? i with
    | none =>
      rw [hlook] at hk
      cases hk
    | some ty =>
      rw [hlook] at hk
      exact view_of_isError hlook hk
  refine good.has_error fun hcalm => ?_
  cases h.solid _ (.atom hview) with
  | atom hsolid => exact hsolid.ne_error hcalm rfl

theorem yields_inferNumbers (good : e.Good) (ha : e.Has clean a) (hb : e.Has clean b)
    (op : Syntax.BinaryOp) (v : ValueId) (span : Span) (accepts : Kind → Bool) (what : Text) :
    Yields (inferNumbers m op v a b span accepts what) e (e.Gains clean) := by
  refine yields_unifyOperands good ha hb span fun fit e1 hmoves hmismatch => ?_
  split
  next hfit => exact .pure ⟨hmoves, hmoves.good.has_error (hmismatch hfit)⟩
  next =>
    have ha1 := ha.mono hmoves
    refine (yields_requireOperand clean hmoves.good ha1.isOver ..).bind
      fun taken e2 ⟨hmoves', htaken⟩ => ?_
    have hto2 := hmoves.trans hmoves'
    split
    next hnot => exact .pure ⟨hto2, hto2.good.has_error (htaken (by simpa using hnot))⟩
    next =>
      refine (yields_resolve_has hto2.good (ha.mono hto2)).bind fun a' e3 ⟨h3, ha'⟩ => ?_
      have hto3 := hto2.trans h3
      refine (yields_resolve_has h3.good (hb.mono hto3)).bind fun b' e4 ⟨h4, hb'⟩ => ?_
      have hto4 := hto3.trans h4
      have ha4 := ha'.mono h4
      refine (yields_kindOf a').bind ?_
      rintro _ e4 ⟨rfl, rfl⟩
      refine (yields_kindOf b').bind ?_
      rintro _ e4 ⟨rfl, rfl⟩
      split
      next hkind =>
        exact .pure ⟨hto4, hkind.elim (ha4.error_of_kind hto4.good) (hb'.error_of_kind hto4.good)⟩
      next =>
        refine .get_bind (.after hto4 (yields_unqualified_has hto4.good ?_))
        obtain hwider | hwider := TypeTable.wider_eq e4.types a' b' <;> rw [hwider]
        · exact ha4
        · exact hb'

theorem yields_inferNeg (good : e.Good) (hi : e.Has clean i) (v : ValueId) (span : Span) :
    Yields (inferNeg m v i span) e (e.Gains clean) := by
  refine (yields_requireOperand clean good hi.isOver ..).bind fun taken e1 ⟨h1, htaken⟩ => ?_
  split
  next hnot => exact .pure ⟨h1, h1.good.has_error (htaken (by simpa using hnot))⟩
  next =>
    refine (yields_isLiteral clean h1.good (hi.mono h1).isOver).bind fun literal e2 h2 => ?_
    have hto2 := h1.trans h2
    split
    next =>
      refine (yields_freshLiteral_has clean h2.good rfl span).bind fun signed e3 ⟨h3, hsigned⟩ => ?_
      have hi3 := hi.mono (hto2.trans h3)
      refine (yields_unify_agree h3.good hsigned hi3 span).bind fun _ e4 ⟨h4, _⟩ => .pure ?_
      exact ⟨(hto2.trans h3).trans h4, hsigned.mono h4⟩
    next => exact .after hto2 (yields_unqualified_has hto2.good (hi.mono hto2))

theorem yields_checkCast (good : e.Good) (ha : e.Has clean a) (hb : e.Has clean b) (span : Span) :
    Yields (checkCast a b span) e fun _ e' => e.Moves clean e' := by
  refine (yields_kindOf a).bind ?_
  rintro from_ e ⟨-, rfl⟩
  refine (yields_kindOf b).bind ?_
  rintro into e ⟨-, rfl⟩
  split
  next => exact .pure (.refl good)
  next =>
    refine (yields_hasKind clean good ha.isOver _).bind fun isNumber e1 h1 => ?_
    have ha1 := ha.mono h1
    have hb1 := hb.mono h1
    split
    next => exact .pure h1
    next =>
      split
      next =>
        refine (yields_unify_agree h1.good hb1 ha1 span).bind fun _ e2 ⟨h2, _⟩ => .pure ?_
        exact h1.trans h2
      next =>
        refine (yields_unqualified_has h1.good ha1).bind fun a' e2 ⟨h2, _⟩ => ?_
        refine (yields_unqualified_has h2.good (hb1.mono h2)).bind fun b' e3 ⟨h3, _⟩ => ?_
        have hto3 := (h1.trans h2).trans h3
        split
        next =>
          refine (yields_label h3.good (ha.mono hto3).isOver).bind fun _ e4 h4 => ?_
          have hto4 := hto3.trans (.of_keeps h3.good h4)
          refine (yields_label h4.good (hb.mono hto4).isOver).bind fun _ e5 h5 => ?_
          refine (yields_report_fault clean h5.good (by decide) (by decide) ..).mono ?_
          rintro _ e6 ⟨h6, -⟩
          exact (hto4.trans (.of_keeps h4.good h5)).trans h6
        next => exact .pure hto3

end Typing

end UnitCheck
