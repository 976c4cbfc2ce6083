import UnitCheck.Proofs.Typing.Binding

/-!
# Unification is sound

`unifyAt` is taken apart into the case of a variable, which `yields_bind` treats, and the case of
two known types (`unifyKnown`). Known types are unified part by part, and bindings made for one part
change the meaning of parts that were compared before. The invariant that survives this is a
relation in every later environment: each part is left behind related as the answer on it says
(`Fit.Relates`), and putting related parts under the same constructor gives related types.
-/

namespace UnitCheck.Typing

open List TypeTable

variable {e e' e'' : Env} {a b : TypeId} {ps qs : List TypeId}

variable {i : TypeId}

/-- Unifying two types, by whether one of them is a variable. -/
theorem unifyAt_succ (depth : Nat) (expect got : TypeId) :
    unifyAt (depth + 1) expect got = (do
      let a ← resolve expect
      let b ← resolve got
      if ¬ a.isValid ∨ ¬ b.isValid then return .ok
      let types := (← get).types
      match types.view a, types.view b with
      | .var v, _ => bind v b
      | _, .var v => bind v a
      | _, _ => unifyKnown (unifyAt depth) a b (types.describe a) (types.describe b)) := by
  refine bind_congr fun a => bind_congr fun b => ?_
  split
  · rfl
  · funext e
    simp only [describe, bind_assoc, pure_bind, get_bind_apply]
    have ha : ∀ v, e.types.view a = .var v ↔ _ := fun v => Env.view_eq_var_iff
    have hb : ∀ v, e.types.view b = .var v ↔ _ := fun v => Env.view_eq_var_iff
    generalize unifyKnown _ a b _ _ = known, e.types.view a = va, e.types.view b = vb,
      (e.types.describe a).shape = sa, (e.types.describe b).shape = sb at ha hb ⊢
    split
    next v => rw [(ha _).2 rfl]
    next v hna =>
      rw [(hb v).2 rfl]
      cases va with
      | var w => exact absurd ((ha w).1 rfl) (hna w)
      | missing | atom | wrap | fn => rfl
    next hna hnb =>
      cases va with
      | var v => exact absurd ((ha v).1 rfl) (hna v)
      | missing | atom | wrap | fn =>
        cases vb with
        | var v => exact absurd ((hb v).1 rfl) (hnb v)
        | missing | atom | wrap | fn => rfl

/-! ## Parts -/

namespace Env

variable {w : Wrapper} {ea eb : TypeId} {fit : Fit} {P : TypeTerm → Prop}

theorem All.elem (h : e.All P a) (hview : e.types.view a = .wrap w ea) : e.All P ea := by
  intro u hu
  cases h _ (.wrap hview hu) with
  | wrap hleaves => exact hleaves

variable {r s : TypeId}

theorem All.signature {ps : List TypeId} (h : e.All P a) (good : e.Good)
    (ha : e.Over a) (hview : e.types.view a = .fn ps r) : (∀ p ∈ ps, e.All P p) ∧ e.All P r := by
  obtain ⟨u, hu⟩ := good.total ha
  obtain ⟨us, w, rfl, hlen, hw, hus⟩ := hu.of_fn hview
  cases h _ hu with
  | fn hps hr =>
    refine ⟨fun p hp q hq => ?_, fun q hq => hq.functional hw ▸ hr⟩
    obtain ⟨k, hk, rfl⟩ := mem_iff_getElem.1 hp
    have hq' := List.getElem?_eq_getElem (hlen ▸ hk : k < us.length)
    rw [hq.functional (hus k _ _ (List.getElem?_eq_getElem hk) hq')]
    exact hps _ (mem_of_getElem? hq')

theorem all_signatures (hall : ∀ x ∈ [a, b], e.All P x)
    (good : e.Good) (ha : e.Over a) (hb : e.Over b) (hva : e.types.view a = .fn ps r)
    (hvb : e.types.view b = .fn qs s) : (∀ x ∈ ps ++ qs, e.All P x) ∧ ∀ x ∈ [r, s], e.All P x := by
  obtain ⟨hPps, hPr⟩ := (hall a (by simp)).signature good ha hva
  obtain ⟨hPqs, hPs⟩ := (hall b (by simp)).signature good hb hvb
  refine ⟨fun x hx => ?_, forall_mem_cons.2 ⟨hPr, forall_mem_singleton.2 hPs⟩⟩
  exact (mem_append.1 hx).elim (hPps x) (hPqs x)

theorem Unifies.of_mismatch {r : Text} (good : e.Good) : e.Unifies a b (.mismatch r) e :=
  ⟨.of_keeps good (.refl good), fun _ h => nomatch h⟩

theorem Unifies.of_later (good : e.Good)
    (h : ∀ {free}, e.Spares free [a, b] → e.Later (fit.Relates free) a b) : e.Unifies a b fit e :=
  ⟨.of_keeps good (.refl good), fun hfree _ => h hfree⟩

theorem Later.wrap (h : e.Later (fit.Relates P) ea eb) (good : e.Good) (ha : e.Over a)
    (hb : e.Over b) (hva : e.types.view a = .wrap w ea) (hvb : e.types.view b = .wrap w eb) :
    e.Later (fit.Relates P) a b := by
  intro f hf u v hu hv
  obtain ⟨u', rfl, hu'⟩ := hu.of_wrap ((ha.view_eq good.types hf.types).trans hva)
  obtain ⟨v', rfl, hv'⟩ := hv.of_wrap ((hb.view_eq good.types hf.types).trans hvb)
  exact .wrap w (h hf hu' hv')

theorem Later.fn (hlen : ps.length = qs.length)
    (hps : ∀ (k : Nat) (p q : TypeId), ps[k]? = some p → qs[k]? = some q →
      e.Later (Compatible P) p q)
    (hr : e.Later (fit.Relates P) r s) (good : e.Good) (ha : e.Over a) (hb : e.Over b)
    (hva : e.types.view a = .fn ps r) (hvb : e.types.view b = .fn qs s) :
    e.Later (fit.Relates P) a b := by
  intro f hf u v hu hv
  obtain ⟨us, u', rfl, hlenu, hu', hus⟩ := hu.of_fn ((ha.view_eq good.types hf.types).trans hva)
  obtain ⟨vs, v', rfl, hlenv, hv', hvs⟩ := hv.of_fn ((hb.view_eq good.types hf.types).trans hvb)
  refine .fn (by omega) (fun k x y hx hy => ?_) (hr hf hu' hv')
  have hk : k < us.length := (List.getElem?_eq_some_iff.1 hx).1
  have hp := List.getElem?_eq_getElem (by omega : k < ps.length)
  have hq := List.getElem?_eq_getElem (by omega : k < qs.length)
  exact hps k _ _ hp hq hf (hus k _ _ hp hx) (hvs k _ _ hq hy)

theorem Unifies.wrap (h : e.Unifies ea eb fit e') (good : e.Good) (ha : e.Over a) (hb : e.Over b)
    (hva : e.types.view a = .wrap w ea) (hvb : e.types.view b = .wrap w eb) :
    e.Unifies a b fit e' := by
  have hparts {P : TypeTerm → Prop} (hall : ∀ s ∈ [a, b], e.All P s) : ∀ s ∈ [ea, eb],
    e.All P s := by
    obtain ⟨hPa, hPb⟩ := forall_mem_cons.1 hall
    exact forall_mem_cons.2 ⟨hPa.elem hva,
      forall_mem_singleton.2 ((forall_mem_singleton.1 hPb).elem hvb)⟩
  refine ⟨h.toBinds.of_parts hparts, fun hfree hfit => ?_⟩
  exact (h.relates (hfree.of_parts hparts) hfit).wrap h.good (h.ext.isOver good ha)
    (h.ext.isOver good hb)
    ((ha.view_eq good.types h.ext.types).trans hva) ((hb.view_eq good.types h.ext.types).trans hvb)

end Env

section Parts

variable {unify : TypeId → TypeId → Solve Fit}

def Sound (unify : TypeId → TypeId → Solve Fit) : Prop :=
  ∀ {e : Env} {a b : TypeId}, e.Good → e.Over a → e.Over b → Yields (unify a b) e (e.Unifies a b)

theorem yields_unifyParams (hunify : Sound unify) (good : e.Good)
    (hlen : ps.length = qs.length) (hover : ∀ s ∈ ps ++ qs, e.Over s) :
    Yields (unifyParams unify ps qs) e fun fit e' => e.Binds (ps ++ qs) e' ∧
      ∀ {free : TypeTerm → Prop}, e.Spares free (ps ++ qs) → fit.isMismatch = false →
        ∀ (k : Nat) (p q : TypeId), ps[k]? = some p → qs[k]? = some q →
          e'.Later (Compatible free) p q := by
  induction ps generalizing qs e with
  | nil => exact ⟨.of_keeps good (.refl good), fun _ _ k p q hp => by simp at hp⟩
  | cons p ps ih =>
    obtain _ | ⟨q, qs⟩ := qs
    · cases hlen
    · have hp : e.Over p := hover p (by simp)
      have hq : e.Over q := hover q (by simp)
      refine (hunify good hp hq).bind fun fit e1 hfirst => ?_
      -- the first pair is part of the whole
      have hpair {P : TypeTerm → Prop} (hall : ∀ s ∈ p :: ps ++ q :: qs, e.All P s) :
          ∀ s ∈ [p, q], e.All P s := by
        intro s hs
        refine hall s ?_
        obtain rfl | rfl := by simpa using hs
        all_goals simp
      have hbinds : e.Binds (p :: ps ++ q :: qs) e1 := hfirst.toBinds.of_parts hpair
      have hrest (hfit : fit.isMismatch = false) : Yields (unifyParams unify ps qs) e1
          fun fit' e' => e.Binds (p :: ps ++ q :: qs) e' ∧
            ∀ {free : TypeTerm → Prop}, e.Spares free (p :: ps ++ q :: qs) →
              fit'.isMismatch = false →
              ∀ (k : Nat) (p' q' : TypeId), (p :: ps)[k]? = some p' → (q :: qs)[k]? = some q' →
                e'.Later (Compatible free) p' q' := by
        have htail : ∀ s ∈ ps ++ qs, s ∈ p :: ps ++ q :: qs := by
          intro s hs
          obtain hs | hs := mem_append.1 hs
          all_goals simp [hs]
        refine (ih hbinds.good (by simpa using hlen) fun s hs =>
          hbinds.ext.isOver good (hover s (htail s hs))).mono fun fit' e' ⟨hbinds', hall⟩ => ?_
        refine ⟨hbinds.trans (hbinds'.of_parts fun hall s hs => hall s (htail s hs)) good hover,
          fun hfree hfit' k => ?_⟩
        cases k with
        | zero =>
          rintro p' q' ⟨⟩ ⟨⟩
          exact ((hfirst.relates (hfree.of_parts hpair) hfit).imp fun _ _ =>
            Fit.Relates.compatible).mono
            hbinds'.ext
        | succ k =>
          intro p' q' hp' hq'
          refine hall ((hfree.later hover hbinds).of_parts fun h s hs => h s (htail s hs)) hfit' k
            p' q' ?_ ?_
          · simpa using hp'
          · simpa using hq'
      cases fit with
      | mismatch r => exact .pure ⟨hbinds, fun _ h => nomatch h⟩
      | ok => exact hrest rfl
      | needsCopy => exact hrest rfl

/-- Unifying function types. The answer is that on the results. -/
theorem yields_unifyFn (hunify : Sound unify) (good : e.Good) (ha : e.Over a) (hb : e.Over b)
    {r s : TypeId} (hva : e.types.view a = .fn ps r)
    (hvb : e.types.view b = .fn qs s) : Yields (unifyFn unify a b) e (e.Unifies a b) := by
  have hover : ∀ x ∈ ps ++ qs, e.Over x := by
    intro x hx
    obtain hx | hx := mem_append.1 hx
    · exact (ha.signature hva).1 x hx
    · exact (hb.signature hvb).1 x hx
  have hparts {P : TypeTerm → Prop} (hall : ∀ x ∈ [a, b], e.All P x) :=
    Env.all_signatures hall good ha hb hva hvb
  refine .get_bind ?_
  dsimp only
  rw [TypeTable.signature?_of_view hva, TypeTable.signature?_of_view hvb]
  dsimp only
  split
  · exact .pure (.of_mismatch good)
  next hlen =>
    have hlen : ps.length = qs.length := not_not.1 hlen
    refine (yields_unifyParams hunify good hlen hover).bind fun fit e1 ⟨hbinds, hall⟩ => ?_
    have hresult (hfit : fit.isMismatch = false) :
        Yields (unify r s) e1 (e.Unifies a b) := by
      have hr := hbinds.ext.isOver good (ha.signature hva).2
      have hs := hbinds.ext.isOver good (hb.signature hvb).2
      refine (hunify hbinds.good hr hs).mono fun fit' e' hres => ?_
      have hab : ∀ x ∈ [a, b], e.Over x := by simp [ha, hb]
      have hfirst : e.Binds [a, b] e1 := hbinds.of_parts fun hall => (hparts hall).1
      have hrest : e1.Binds [a, b] e' := hres.toBinds.of_parts fun hall =>
        (Env.all_signatures hall hbinds.good (hbinds.ext.isOver good ha) (hbinds.ext.isOver good hb)
          ((ha.view_eq good.types hbinds.ext.types).trans hva)
          ((hb.view_eq good.types hbinds.ext.types).trans hvb)).2
      refine ⟨hfirst.trans hrest good hab, fun hfree hfit' => ?_⟩
      have hext := hfirst.ext.trans hrest.ext
      refine .fn hlen (fun k p q hp hq => ?_) (hres.relates ?_ hfit') hres.good
        (hext.isOver good ha)
        (hext.isOver good hb) ((ha.view_eq good.types hext.types).trans hva)
        ((hb.view_eq good.types hext.types).trans hvb)
      · exact (hall (hfree.of_parts fun h => (hparts h).1) hfit k p q hp hq).mono hrest.ext
      · refine hfree.of_parts fun htyped x hx => ?_
        have hover' : e.Over x := by
          obtain rfl | rfl := by simpa using hx
          · exact (ha.signature hva).2
          · exact (hb.signature hvb).2
        exact hfirst.keeps htyped hover' ((hparts htyped).2 x hx)
    cases fit with
    | mismatch r =>
      exact .pure ⟨hbinds.of_parts fun hall => (hparts hall).1, fun _ h => nomatch h⟩
    | ok => exact hresult rfl
    | needsCopy => exact hresult rfl

theorem yields_unifyParts (hunify : Sound unify) (good : e.Good) (ha : e.Over a) (hb : e.Over b)
    {ta tb : Ty} (hla : e.types.lookup? a = some ta) (hlb : e.types.lookup? b = some tb)
    (hkind : ta.kind = tb.kind) (hvar : ∀ v, ta.shape ≠ .var v) :
    Yields (unifyParts unify a b ta.shape tb.shape) e (e.Unifies a b) := by
  have hpa := (good.types.admits hla).proper
  have hpb := (good.types.admits hlb).proper
  have hb0 : b ≠ 0 := by
    rintro rfl
    cases hlb
  obtain ⟨sa, ma⟩ := ta
  obtain ⟨sb, mb⟩ := tb
  -- types with the same view mean the same as they are
  have hsame {x : Atom} (hxa : sa.atom? = some x) (hxb : sb.atom? = some x) :
      e.Unifies a b .ok e := by
    refine .of_later good fun _ => (Env.later_eq_of_view_eq good ha hb hb0 ?_).imp fun u w h => ?_
    · rw [view_of_atom hla hxa, view_of_atom hlb hxb]
    · exact h ▸ .refl u
  have hwrap {w : Wrapper} {ea eb : TypeId} (hwa : sa.wrap? = some (w, ea))
      (hwb : sb.wrap? = some (w, eb)) : Yields (unify ea eb) e (e.Unifies a b) := by
    have hva := view_of_wrap hla hwa
    have hvb := view_of_wrap hlb hwb
    exact (hunify good (ha.elem hva) (hb.elem hvb)).mono fun fit e' h =>
      h.wrap good ha hb hva hvb
  have hatoms {p : Prop} [Decidable p] (h : p → ∃ x, sa.atom? = some x ∧ sb.atom? = some x) :
      Yields (pure (if p then .ok else .no)) e (e.Unifies a b) := by
    split
    next hp =>
      obtain ⟨x, hxa, hxb⟩ := h hp
      exact hsame hxa hxb
    next => exact .of_mismatch good
  dsimp only [Ty.kind] at hkind hvar hpa hpb ⊢
  unfold unifyParts
  split
  next s ea na s' eb nb =>
    split
    · exact .pure (.of_mismatch good)
    next hstorage =>
      split
      · exact .pure (.of_mismatch good)
      next hlength =>
        refine hwrap rfl ?_
        cases not_not.1 hstorage
        cases s with
        | stack =>
          have hcount : na = nb := not_not.1 fun hne => hlength ⟨rfl, hne⟩
          rw [hcount]
          rfl
        | heap | slice => rfl
  next m ea m' eb =>
    split
    · exact .pure (.of_mismatch good)
    next hmut =>
      cases not_not.1 hmut
      exact hwrap rfl rfl
  next => exact hwrap rfl rfl
  next => exact hwrap rfl rfl
  next =>
    obtain ⟨ps, r, hva⟩ := good.types.view_of_fn hla
    obtain ⟨qs, s, hvb⟩ := good.types.view_of_fn hlb
    exact yields_unifyFn hunify good ha hb hva hvb
  iterate 4 next => exact hatoms fun heq => ⟨_, rfl, by rw [heq]; rfl⟩
  next harray href hpointer hoptional hfn hnamed hint huint hfloat =>
    -- what is left are types that consist of their kind
    obtain ⟨k, rfl, rfl⟩ : ∃ k, sa = .plain k ∧ sb = .plain k := by
      cases sa with
      | plain k => exact ⟨k, rfl, hpa.eq_plain hkind.symm⟩
      | var v => exact absurd rfl (hvar v)
      | int | uint | float | array | reference | pointer | optional | named | fn =>
        cases sb with
        | plain k => cases hpb.eq_plain hkind
        | int => first | exact (hint _ _ rfl rfl).elim | cases hkind
        | uint => first | exact (huint _ _ rfl rfl).elim | cases hkind
        | float => first | exact (hfloat _ _ rfl rfl).elim | cases hkind
        | array => first | exact (harray _ _ _ _ _ _ rfl rfl).elim | cases hkind
        | reference => first | exact (href _ _ _ _ rfl rfl).elim | cases hkind
        | pointer => first | exact (hpointer _ _ rfl rfl).elim | cases hkind
        | optional => first | exact (hoptional _ _ rfl rfl).elim | cases hkind
        | named => first | exact (hnamed _ _ _ _ rfl rfl).elim | cases hkind
        | fn => first | exact (hfn _ _ rfl rfl).elim | cases hkind
        | var => cases hkind
    exact .pure (hsame rfl rfl)

end Parts

/-! ## Known types and all types -/

theorem yields_isCopy (i : TypeId) :
    Yields (isCopy i) e fun copy e' => e' = e ∧ copy = e.types.isCopy i := ⟨rfl, rfl⟩

theorem Env.Extends.isCopy (hext : e.Extends e') (good : e.Good) (h : e.types.isCopy a = true)
    {u : TypeTerm} (hu : e'.Denotes a u) : u.isCopy = true :=
  hu.isCopyAt (hext.types.isCopyAt good.types h)

/-- Modifiers ask for a copy only of what may be copied. -/
theorem yields_fitModifiers (ma mb : Modifier) (i : TypeId) :
    Yields (fitModifiers ma mb i) e fun outer e' => e' = e ∧
      (outer.isMismatch = false → outer ≠ .ok → e.types.isCopy i = true) := by
  unfold fitModifiers
  split
  · exact .pure ⟨rfl, fun _ h => absurd rfl h⟩
  · refine (yields_isCopy i).bind fun copy e' ⟨h, hcopy⟩ => ?_
    subst h
    split
    next htrue => exact .pure ⟨rfl, fun _ _ => hcopy.symm.trans htrue⟩
    next => exact .pure ⟨rfl, fun h => nomatch h⟩

theorem Env.isUntyped_of_fits {k : Kind} {ty : Ty} (hla : e.types.lookup? a = some ty)
    (hfits : ty.kind.fits k = true) : e.IsUntyped a := by
  have huntyped : ty.kind.isUntyped = true := by
    simp only [Kind.fits, Bool.and_eq_true] at hfits
    exact hfits.1.1.1
  exact ⟨_, huntyped, view_of_isUntyped hla huntyped⟩

/-- An untyped kind is related to everything that it is unified with. -/
theorem Env.Spares.later_of_untyped {free : TypeTerm → Prop} (h : e.Spares free [a, b])
    (good : e.Good) (ha : e.Over a) (hb : e.Over b) (hext : e.Extends e')
    (hab : e.IsUntyped a ∨ e.IsUntyped b) : e'.Later (Fit.ok.Relates free) a b := by
  refine .mono ?_ hext
  obtain ⟨k, hk, hview⟩ | ⟨k, hk, hview⟩ := hab
  · exact Env.later_of_atom_left good ha hview fun _ =>
      .freeLeft (h.free_of_untyped (by simp) hview hk)
  · exact Env.later_of_atom_right good hb hview fun _ =>
      .freeRight (h.free_of_untyped (by simp) hview hk)

theorem Fit.join_isMismatch {outer fit : Fit} (h : (outer.join fit).isMismatch = false) :
    fit.isMismatch = false := by
  cases outer <;> cases fit <;> first | rfl | cases h

section Known

variable {unify : TypeId → TypeId → Solve Fit}

/-- Unifying a type with a referent relates it to the reference, by a copy of the referent. -/
theorem yields_unifyReferent (hunify : Sound unify) (good : e.Good) (ha : e.Over a) (hb : e.Over b)
    {elem : TypeId} {isMut : Bool} (hvar : ∀ v, e.types.view a ≠ .var v)
    (href : ∀ isMut elem, e.types.view a ≠ .wrap (.reference isMut) elem)
    (hvb : e.types.view b = .wrap (.reference isMut) elem) :
    Yields (unifyReferent unify a elem) e (e.Unifies a b) := by
  have hab : ∀ s ∈ [a, b], e.Over s := by simp [ha, hb]
  have hparts {P : TypeTerm → Prop} (hall : ∀ s ∈ [a, b], e.All P s) : ∀ s ∈ [a, elem], e.All P s :=
    forall_mem_cons.2 ⟨hall a (by simp),
      forall_mem_singleton.2 ((hall b (by simp)).elem hvb)⟩
  refine (hunify good ha (hb.elem hvb)).bind fun fit e1 hfirst => ?_
  have hbinds : e.Binds [a, b] e1 := hfirst.toBinds.of_parts hparts
  have hcopy (hfit : fit.isMismatch = false) : Yields (do
      if ← isCopy (← resolve elem) then return .needsCopy
      else return .mismatch "the referenced value cannot be copied implicitly") e1
        (e.Unifies a b) := by
    refine (yields_resolve hfirst.good (hfirst.ext.isOver good (hb.elem hvb))).bind
      fun j e2 hres => ?_
    refine (yields_isCopy j).bind fun copy e3 ⟨h, hcopy⟩ => ?_
    subst h
    have hbinds2 : e.Binds [a, b] e3 :=
      hbinds.trans (.of_keeps hfirst.good hres.toKeeps) good hab
    cases copy with
    | false => exact .pure ⟨hbinds2, fun _ h => nomatch h⟩
    | true =>
      refine .pure ⟨hbinds2, fun hfree _ f hf u w hu hw => ?_⟩
      have hext := hbinds2.ext.trans hf
      have hva := ha.view_eq good.types hext.types
      obtain ⟨w', rfl, hw'⟩ := hw.of_wrap ((hb.view_eq good.types hext.types).trans hvb)
      have hfits := hfirst.relates (hfree.of_parts hparts) hfit (hres.grows.toExtends.trans hf)
        hu hw'
      refine .referent isMut ?_ ?_ hfits.compatible
      · exact hu.isReference_eq_false (by simpa [hva] using hvar) (by simpa [hva] using href)
      · exact hf.isCopy hres.good hcopy.symm ((hres.same hf).1 hw')
  cases fit with
  | mismatch r => exact .pure ⟨hbinds, fun _ h => nomatch h⟩
  | ok => exact hcopy rfl
  | needsCopy => exact hcopy rfl

variable {ta tb : Ty}

theorem yields_unifyShapes (hunify : Sound unify) (good : e.Good) (ha : e.Over a) (hb : e.Over b)
    (hla : e.types.lookup? a = some ta) (hlb : e.types.lookup? b = some tb)
    (hvar : ∀ v, e.types.view a ≠ .var v) {outer : Fit} (houter : outer.isMismatch = false)
    (hcopy : outer ≠ .ok → e.types.isCopy b = true) :
    Yields (unifyShapes unify a b ta tb outer) e (e.Unifies a b) := by
  unfold unifyShapes
  split
  next elem helem =>
    split at helem
    next => cases helem
    next hkind =>
      obtain ⟨sb, mb⟩ := tb
      obtain ⟨isMut, rfl⟩ : ∃ isMut, sb = .reference isMut elem := by
        cases sb with
        | reference isMut elem' =>
          cases helem
          exact ⟨isMut, rfl⟩
        | plain | int | uint | float | array | pointer | optional | named | fn | var => cases helem
      refine yields_unifyReferent hunify good ha hb hvar ?_ (view_of_wrap hlb rfl)
      intro isMut' elem' hva
      obtain ⟨m, hla'⟩ := lookup?_of_view_reference hva
      cases hla.symm.trans hla'
      exact hkind rfl
  next =>
    -- what the modifiers ask for comes on top of what the parts ask for
    have hjoin {fit : Fit} {free : TypeTerm → Prop} {e' : Env} (hext : e.Extends e')
        (h : e'.Later (fit.Relates free) a b) : e'.Later ((outer.join fit).Relates free) a b :=
      fun f hf u w hu hw => (h hf hu hw).join
        (fun hne => (hext.trans hf).isCopy good (hcopy hne) hw) houter
    split
    next hfits =>
      refine .pure (.of_later good fun hfree => ?_)
      have huntyped := hfits.imp (Env.isUntyped_of_fits hla) (Env.isUntyped_of_fits hlb)
      have hlater := hjoin (.refl e) (hfree.later_of_untyped good ha hb (.refl e) huntyped)
      cases outer with
      | ok | needsCopy => exact hlater
      | mismatch => cases houter
    next =>
      split
      · exact .pure (.of_mismatch good)
      next hkind =>
        have hshape : ∀ v, ta.shape ≠ .var v := by
          rintro v hv
          obtain ⟨sa, ma⟩ := ta
          cases hv
          exact hvar v (view_of_var hla)
        refine (yields_unifyParts hunify good ha hb hla hlb (not_not.1 hkind) hshape).bind
          fun fit e' h => .pure ⟨h.toBinds, fun hfree hfit => ?_⟩
        exact hjoin h.ext (h.relates hfree (Fit.join_isMismatch hfit))

theorem yields_unifyKnown (hunify : Sound unify) (good : e.Good) (ha : e.Over a) (hb : e.Over b)
    (hla : e.types.lookup? a = some ta) (hlb : e.types.lookup? b = some tb)
    (hvar : ∀ v, e.types.view a ≠ .var v) :
    Yields (unifyKnown unify a b ta tb) e (e.Unifies a b) := by
  unfold unifyKnown
  split
  next herror =>
    refine .pure (.of_later good fun hfree => ?_)
    have herr := hfree.absorbing .error (.inl rfl)
    obtain herror | herror := herror
    · exact Env.later_of_atom_left good ha (view_of_isError hla herror) fun _ => .freeLeft herr
    · exact Env.later_of_atom_right good hb (view_of_isError hlb herror) fun _ => .freeRight herr
  next =>
    refine (yields_fitModifiers ..).bind fun outer e1 ⟨h, hcopy⟩ => ?_
    subst h
    cases outer with
    | mismatch r => exact .pure (.of_mismatch good)
    | ok | needsCopy => exact yields_unifyShapes hunify good ha hb hla hlb hvar rfl (hcopy rfl)

end Known

theorem eq_zero_of_not_isValid (h : ¬ i.isValid = true) : i = 0 := by
  obtain ⟨n⟩ := i
  have hn : n = 0 := by simpa [Id.isValid] using h
  rw [hn]
  rfl

theorem Env.Unifies.of_zero (good : e.Good) (h : a = 0 ∨ b = 0) : e.Unifies a b .ok e := by
  refine .of_later good fun hfree f _ u w hu hw => ?_
  have hmissing := hfree.absorbing .missing (.inr rfl)
  obtain rfl | rfl := h
  · rw [hu.functional .missing]
    exact .freeLeft hmissing
  · rw [hw.functional .missing]
    exact .freeRight hmissing

theorem yields_unifyEnds {depth : Nat} (hunify : Sound (unifyAt depth)) (good : e.Good)
    (ha : e.Over a) (hb : e.Over b)
    (hfreea : ∀ v, e.types.view a = .var v → e.binding? v = none)
    (hfreeb : ∀ v, e.types.view b = .var v → e.binding? v = none) (ha0 : a ≠ 0) (hb0 : b ≠ 0) :
    Yields (match e.types.view a, e.types.view b with
      | .var v, _ => bind v b
      | _, .var v => bind v a
      | _, _ => unifyKnown (unifyAt depth) a b (e.types.describe a) (e.types.describe b)) e
      (e.Unifies a b) := by
  have hknown (hvar : ∀ v, e.types.view a ≠ .var v) : Yields
      (unifyKnown (unifyAt depth) a b (e.types.describe a) (e.types.describe b)) e
      (e.Unifies a b) := by
    obtain ⟨ta, hla, hta⟩ := exists_describe (ha.view_ne_missing ha0)
    obtain ⟨tb, hlb, htb⟩ := exists_describe (hb.view_ne_missing hb0)
    rw [hta, htb]
    exact yields_unifyKnown hunify good ha hb hla hlb hvar
  -- a variable means the other type from now on, or the other type is an untyped kind
  have hbound {fit : Fit} {e' : Env} (hbinds : e.Binds [a, b] e')
      (h : fit.isMismatch = false →
        fit = .ok ∧ (e'.Later Eq a b ∨ e.IsUntyped a ∨ e.IsUntyped b)) : e.Unifies a b fit e' := by
    refine ⟨hbinds, fun hfree hfit => ?_⟩
    obtain ⟨rfl, hsame | huntyped⟩ := h hfit
    · exact hsame.imp fun u w heq => heq ▸ .refl u
    · exact hfree.later_of_untyped good ha hb hbinds.ext huntyped
  split
  next v hva =>
    refine (yields_bind good ⟨ha, hva, hfreea v hva⟩ hb hb0 hfreeb).mono
      fun fit e' ⟨hbinds, h⟩ => ?_
    exact hbound hbinds fun hfit => ⟨(h hfit).1, (h hfit).2.imp_right .inr⟩
  next v hvb _ =>
    refine (yields_bind good ⟨hb, hvb, hfreeb v hvb⟩ ha ha0 hfreea).mono
      fun fit e' ⟨hbinds, h⟩ => ?_
    refine hbound (hbinds.of_parts fun hall => ?_) fun hfit =>
      ⟨(h hfit).1, (h hfit).2.imp .symm .inl⟩
    exact forall_mem_cons.2 ⟨hall b (by simp), forall_mem_singleton.2 (hall a (by simp))⟩
  next hna _ => exact hknown hna

theorem sound_unifyAt (depth : Nat) : Sound (unifyAt depth) := by
  induction depth with
  | zero => exact fun good _ _ => .pure (.of_mismatch good)
  | succ depth ih =>
    intro e expect got good hexpect hgot
    rw [unifyAt_succ]
    refine (yields_resolve good hexpect).bind fun a e1 hresa => ?_
    have hgot1 := hresa.grows.isOver good hgot
    refine (yields_resolve hresa.good hgot1).bind fun b e2 hresb => ?_
    have hkeeps := hresa.toKeeps.trans hresb.toKeeps
    have ha := hresb.grows.isOver hresa.good hresa.isOver
    -- it is enough to unify the two types at the ends of the ways
    have hover : ∀ s ∈ [expect, got], e.Over s := by simp [hexpect, hgot]
    have hsamea {f : Env} (hf : e2.Extends f) {u : TypeTerm} :
        f.Denotes expect u ↔ f.Denotes a u := hresa.same (hresb.grows.toExtends.trans hf)
    suffices hgoal : Yields _ e2 (e2.Unifies a b) from hgoal.mono fun fit e' h => by
      have hparts {P : TypeTerm → Prop} (hall : ∀ s ∈ [expect, got], e2.All P s) :
          ∀ s ∈ [a, b], e2.All P s := by
        refine forall_mem_cons.2 ⟨fun u hu => ?_, forall_mem_singleton.2 fun u hu => ?_⟩
        · exact hall expect (by simp) u ((hsamea (.refl e2)).2 hu)
        · exact hall got (by simp) u ((hresb.same (.refl e2)).2 hu)
      have hbinds : e.Binds [expect, got] e2 := .of_keeps good hkeeps
      refine ⟨hbinds.trans (h.toBinds.of_parts hparts) good hover,
        fun hfree hfit f hf u w hu hw => ?_⟩
      have hf2 := h.ext.trans hf
      exact h.relates ((hfree.later hover hbinds).of_parts hparts) hfit hf ((hsamea hf2).1 hu)
        ((hresb.same hf2).1 hw)
    split
    next hinvalid =>
      refine .pure (.of_zero hresb.good ?_)
      exact hinvalid.imp eq_zero_of_not_isValid eq_zero_of_not_isValid
    next hvalid =>
      obtain ⟨ha0, hb0⟩ := not_or.1 hvalid
      refine .get_bind (yields_unifyEnds ih hresb.good ha hresb.isOver (fun v hv => ?_)
        (fun v => hresb.unbound) ?_ ?_)
      · rw [hresb.grows.binding?_eq]
        exact hresa.unbound
          ((hresa.isOver.view_eq hresa.good.types hresb.grows.types).symm.trans hv)
      · rintro rfl
        exact ha0 (by decide)
      · rintro rfl
        exact hb0 (by decide)

/-! ## Reported mismatches -/

theorem fillable_showLiteral : Fillable (fun _ _ _ => True) showLiteral where
  mono _ h := h
  leaf {e v i} good hi hview _ := by
    refine .get_bind ?_
    have hbuiltin {k : Nat} {s : Shape} {x : Atom} (hk : TypeTable.builtinShapes[k]? = some s)
        (hx : s.atom? = some x) : Yields (pure (⟨k + 1⟩ : TypeId)) e fun j e' =>
          e.Keeps e' ∧ j ≠ 0 ∧ e'.Over j ∧ ∃ u, e'.types.Reads j u ∧ True := by
      have hatom := good.types.view_builtin hk hx
      exact .pure ⟨.refl good, nofun, .atom hatom, _, .atom hatom, trivial⟩
    split
    · exact hbuiltin rfl rfl
    · exact hbuiltin rfl rfl
    · exact hbuiltin rfl rfl
    · refine .pure ⟨.refl good, ?_, hi, _, .free hview rfl, trivial⟩
      rintro rfl
      cases hview

theorem yields_label (good : e.Good) (hi : e.Over i) : Yields (label i) e fun _ e' => e.Keeps e' :=
  (fillable_showLiteral.expansion.yields_expandAt good hi).bind fun _ _ h =>
    .get_bind (.pure h.toKeeps)

/-- Unifying two types of a good environment. A mismatch is reported, which changes no meaning. -/
theorem yields_unify (good : e.Good) (ha : e.Over a) (hb : e.Over b) (span : Span) :
    Yields (unify a b span) e (e.Unifies a b) := by
  have hab : ∀ s ∈ [a, b], e.Over s := by simp [ha, hb]
  refine (sound_unifyAt depthLimit good ha hb).bind fun fit e1 h => ?_
  cases fit with
  | ok | needsCopy => exact .pure h
  | mismatch r =>
    refine (yields_label h.good (h.ext.isOver good ha)).bind fun _ e2 hkeeps => ?_
    have hb2 := hkeeps.grows.isOver h.good (h.ext.isOver good hb)
    refine (yields_label hkeeps.good hb2).bind fun _ e3 hkeeps' => ?_
    have hreport : FaultCode.typeMismatch ≠ .unresolvedType := by decide
    refine (yields_report hkeeps'.good ?_ hreport).bind fun _ e4 ⟨hkeeps'', _⟩ => .pure ?_
    · rintro ⟨hcode, -⟩
      have hcode : FaultCode.typeMismatch = .internalError := hcode
      exact absurd hcode (by decide)
    have hlast := (hkeeps.trans hkeeps').trans hkeeps''
    exact ⟨h.toBinds.trans (.of_keeps h.good hlast) good hab, fun _ h => nomatch h⟩

end UnitCheck.Typing
