import UnitCheck.Proofs.Typing.Walk

/-!
# Typing values

What inference does for each construct, as a part of the walk: places, lines, blocks, and every form
of a value. Everything but the walk itself is given how to type a value, and here too all lemmas
take that as known (`Infers`) for the values that come before some value. Operands do, so the walk
is settled by an induction on how deep values are nested (`infers_inferValue`).
-/

namespace UnitCheck.Typing

open Code List Option
open Run (Gives)

variable {clean : Prop} {m : Module} {R : TypeId → Prop} {s s' s'' : State} {t a b : TypeId}
  {v w : ValueId} {vs ws : List ValueId} {n : Nat} {value : ValueId → Infer TypeId}
  {branches : List (ValueId × BlockId)} {i : TypeId} {r : TypeId} {e : Env}

/-- The walk over the first `n` values: each of them is gone over, and gets a type that is noted. -/
def Infers (clean : Prop) (m : Module) (R : TypeId → Prop) (value : ValueId → Infer TypeId)
    (n : Nat) : Prop :=
  ∀ {s : State} {v : ValueId}, s.Ready clean m R → v.isValid = true → v.index < n →
    Gives (value v) s fun t s' =>
      Visits clean m R s [v] s' ∧ s'.env.Has clean t ∧ (v, t) ∈ s'.valueTypes

variable (hm : m.Regular clean) (hvalue : Infers clean m R value n)

/-! ## Steps -/

variable (m R) in
theorem gives_solve {α : Type} {f : Solve α} {P : α → Env → Prop}
    (h : Yields f s.env fun x e => s.env.Moves clean e ∧ P x e) :
    Gives (solve f) s fun x s' => Visits clean m R s [] s' ∧ P x s'.env :=
  ⟨_, _, rfl, .of_moves h.1, h.2⟩

variable (m R) in
theorem gives_solve_moves {α : Type} {f : Solve α}
    (h : Yields f s.env fun _ e => s.env.Moves clean e) :
    Gives (solve f) s fun _ s' => Visits clean m R s [] s' :=
  ⟨_, _, rfl, .of_moves h⟩

theorem gives_unifyValue (hs : s.Ready clean m R) (ha : s.env.Has clean a) (hb : s.env.Has clean b)
    (v : ValueId) (span : Span) : Gives (unifyValue v a b span) s fun _ s' =>
      Visits clean m R s [] s' ∧ (s'.env.Calm clean → s'.env.Agree a b) := by
  refine (gives_solve m R (yields_unify_agree hs.good ha hb span)).bind ?_
  rintro fit s1 ⟨h1, hmismatch, hagree⟩
  cases fit with
  | ok => exact .pure ⟨h1, hagree⟩
  | needsCopy =>
    dsimp only
    split
    · exact ⟨(), _, rfl, h1.step (.of_moves (.refl h1.moves.good)), hagree⟩
    · exact .pure ⟨h1, hagree⟩
  | mismatch reason =>
    -- the value gets the error type, which is solid behind the report
    have hfault := hmismatch rfl
    dsimp only
    split
    · refine ⟨(), _, rfl, h1.step (.renote h1.moves.good ?_ hfault), hagree⟩
      exact h1.moves.good.has_error hfault
    · exact .pure ⟨h1, hagree⟩

/-! ## Places -/

/-- A slot is seen with a type: what agrees with that type agrees with the type of the slot. -/
def State.Shows (s : State) (l : LocalId) (t : TypeId) : Prop :=
  ∃ u, s.localTypes.lookup l = some u ∧
    ∀ ⦃e : Env⦄, s.env.Extends e → ∀ ⦃b : TypeId⦄, e.Agree t b → e.Agree u b

variable {l : LocalId} {x : Line} {L : List LineId} {ps ts : List TypeId} {cond : ValueId}
  {body : BlockId}

theorem State.Later.shows (h : s.Later s') (hs : s.Shows l t) : s'.Shows l t := by
  obtain ⟨u, hu, hagree⟩ := hs
  exact ⟨u, h.locals hu, fun _ he => hagree (h.env.trans he)⟩

theorem gives_localType (hs : s.Ready clean m R) (h : (m.local? l).isSome = true) :
    Gives (localType m l) s fun t s' =>
      Visits clean m R s [] s' ∧ s'.env.Has clean t ∧ s'.Shows l t := by
  obtain ⟨x, hx⟩ := isSome_iff_exists.1 h
  obtain ⟨t, ht, hhas, -⟩ := hs.locals hx
  refine .step rfl ?_
  rw [ht, hx]
  dsimp only
  split
  · exact .pure ⟨.refl hs.good, hhas, t, ht, fun _ _ _ hagree => hagree⟩
  · refine ⟨_, _, rfl, ?_⟩
    have halias := yields_withModifier_aliases hs.good hhas.isOver x.modifier
    exact ⟨.of_moves (halias.moves hs.good clean), halias.has hs.good hhas, t, ht,
      fun _ he _ hagree => halias.agree_left he hagree⟩

theorem has_field (hm : m.Regular clean) (hs : s.Ready clean m R) (d : DeclId) (x : Member)
    (e : Env) (hext : s.env.Extends e) (hx : x ∈ fieldsOf m d) : e.Has clean x.type := by
  unfold fieldsOf at hx
  cases hitem : m.item? d with
  | none => simp [hitem] at hx
  | some i =>
    cases htype : i.type with
    | none => simp [hitem, htype] at hx
    | some y =>
      rw [hitem, bind_some, htype] at hx
      exact .of_closed (((hm.items hitem).type y htype).fields x hx) hm.types
        (hs.types.trans hext.types)

include hm hvalue in
theorem gives_inferPlace (span : Span) {p : Place} (hp : m.ProperPlace p)
    (hn : ∀ w ∈ p.operands, w.index < n) (hs : s.Ready clean m R) :
    Gives (inferPlace m value span p) s fun t s' => Visits clean m R s p.operands s' ∧
      s'.env.Has clean t ∧ ∀ l, p = .slot l → s'.Shows l t := by
  induction p with
  | missing | unknown => exact hp.elim
  | slot l =>
    refine (gives_localType hs hp).mono fun t s' ⟨h, ht, hshows⟩ => ⟨h, ht, ?_⟩
    rintro l ⟨⟩
    exact hshows
  | index base i ih =>
    refine (ih hp.1 fun w hw => hn w (mem_append_left _ hw)).bind fun t s1 ⟨h1, ht, _⟩ => ?_
    have hi : i.index < n := hn i (mem_append_right _ (mem_singleton_self i))
    refine (hvalue (h1.ready hs) hp.2 hi).bind fun u s2 ⟨h2, hu, _⟩ => ?_
    refine (gives_solve_moves m R (yields_hasKind clean h2.moves.good hu.isOver _)).bind
      fun k s3 h3 => ?_
    -- the element is taken from the base, whether the index was reported or not
    have helem (s4 : State) (h4 : Visits clean m R s2 [] s4) :
        Gives (solve (elemOf t span)) s4 fun t s' => Visits clean m R s (base.operands ++ [i]) s' ∧
          s'.env.Has clean t ∧ ∀ l, Place.index base i = .slot l → s'.Shows l t := by
      have ht4 := h4.has (h2.has ht)
      refine (gives_solve m R (yields_elemOf h4.moves.good ht4 span)).mono fun u s5 ⟨h5, hu⟩ => ?_
      exact ⟨(h1.trans h2).step (h4.step h5), hu, nofun⟩
    cases k with
    | true => exact helem s3 h3
    | false =>
      have hu3 := (h3.has hu).isOver
      refine (gives_solve m R (yields_wrongType clean h3.moves.good hu3 ..)).bind
        fun _ s4 ⟨h4, _⟩ => ?_
      exact helem s4 (h3.step h4)
  | deref base ih =>
    refine (ih hp hn).bind fun t s1 ⟨h1, ht, _⟩ => ?_
    refine (gives_solve m R (yields_targetOf h1.moves.good ht span)).mono fun u s2 ⟨h2, hu⟩ => ?_
    exact ⟨h1.step h2, hu, nofun⟩
  | field base name ih =>
    refine (ih hp hn).bind fun t s1 ⟨h1, ht, _⟩ => ?_
    have hfields := has_field hm (h1.ready hs)
    refine (gives_solve m R (yields_fieldOf h1.moves.good ht name span hfields)).mono
      fun u s2 ⟨h2, hu⟩ => ?_
    exact ⟨h1.step h2, hu, nofun⟩

/-! ## Lines and blocks -/

include hvalue in
theorem gives_discard_value (hs : s.Ready clean m R) (hv : v.isValid = true) (hn : v.index < n) :
    Gives (discard (value v)) s fun _ s' => Visits clean m R s [v] s' :=
  .discard ((hvalue hs hv hn).mono fun _ _ h => h.1)

include hm hvalue in
theorem gives_inferLine {i : LineId} (hx : m.line? i = some x) (hn : ∀ w ∈ x.operands, w.index < n)
    (hs : s.Ready clean m R) :
    Gives (inferLine m value i) s fun _ s' =>
      Visits clean m R s x.operands s' ∧ (s'.env.Calm clean → FitsLine s' s'.result x) := by
  have hproper := hm.lines hx
  unfold inferLine
  rw [hx]
  cases x with
  | bind slot v =>
    dsimp only
    split
    next hv =>
      refine (hvalue hs hv (hn v (mem_singleton_self v))).bind fun got s1 ⟨h1, hgot, hnote⟩ => ?_
      refine (gives_localType (h1.ready hs) hproper).bind fun expect s2 ⟨h2, hexpect, hshows⟩ => ?_
      have hs2 := h2.ready (h1.ready hs)
      refine (gives_unifyValue hs2 hexpect (h2.has hgot) v _).mono fun _ s3 ⟨h3, hagree⟩ => ?_
      refine ⟨(h1.step h2).step h3, fun hc _ => ?_⟩
      obtain ⟨u, hu, hsees⟩ := h3.later.shows hshows
      exact ⟨u, hu, got, (h2.step h3).later.values hnote, hsees (.refl _) (hagree hc)⟩
    next hv =>
      exact .pure ⟨.of_absent hs.good hv, fun _ hv' => absurd hv' hv⟩
  | assign p v =>
    refine (gives_inferPlace hm hvalue _ hproper.1
      (fun w hw => hn w (mem_append_left _ hw)) hs).bind
      fun expect s1 ⟨h1, hexpect, hshows⟩ => ?_
    have hlt : v.index < n := hn v (mem_append_right _ (mem_singleton_self v))
    refine (hvalue (h1.ready hs) hproper.2 hlt).bind fun got s2 ⟨h2, hgot, hnote⟩ => ?_
    have hs2 := h2.ready (h1.ready hs)
    refine (gives_unifyValue hs2 (h2.has hexpect) hgot v _).mono fun _ s3 ⟨h3, hagree⟩ => ?_
    refine ⟨(h1.trans h2).step h3, fun hc => ?_⟩
    cases p with
    | slot l =>
      intro _
      obtain ⟨u, hu, hsees⟩ := (h2.step h3).later.shows (hshows l rfl)
      exact ⟨u, hu, got, h3.later.values hnote, hsees (.refl _) (hagree hc)⟩
    | _ => exact trivial
  | eval v =>
    refine (gives_discard_value hvalue hs hproper (hn v (mem_singleton_self v))).mono ?_
    exact fun _ s1 h1 => ⟨h1, fun _ => trivial⟩
  | return_ v =>
    -- without a value, a unit is returned; then both go on alike
    have hrest (got : TypeId) (s1 : State) (h1 : Visits clean m R s [v] s1)
      (hgot : s1.env.Has clean got)
        (hnote : v.isValid = true → (v, got) ∈ s1.valueTypes) :
        Gives (do
          let result := (← get).result
          if result.isValid then unifyValue v result got (m.lineSpan i)) s1 fun _ s' =>
            Visits clean m R s [v] s' ∧
              (s'.env.Calm clean → FitsLine s' s'.result (.return_ v)) := by
      refine .step rfl ?_
      dsimp only
      split
      next hr =>
        have hs1 := h1.ready hs
        refine (gives_unifyValue hs1 (hs1.result hr) hgot v _).mono fun _ s2 ⟨h2, hagree⟩ => ?_
        refine ⟨h1.step h2, fun hc _ hv => ⟨got, h2.later.values (hnote hv), ?_⟩⟩
        rw [h2.result]
        exact hagree hc
      next hr => exact .pure ⟨h1, fun _ hr' => absurd hr' hr⟩
    dsimp only
    split
    next hv =>
      refine (hvalue hs hv (hn v (mem_singleton_self v))).bind fun got s1 ⟨h1, hgot, hnote⟩ => ?_
      exact hrest got s1 h1 hgot fun _ => hnote
    next hv =>
      exact hrest _ s (.of_absent hs.good hv) hs.good.has_unit fun hv' => absurd hv' hv
  | break_ v =>
    dsimp only
    split
    next hv =>
      refine (gives_discard_value hvalue hs hv (hn v (mem_singleton_self v))).mono ?_
      exact fun _ s1 h1 => ⟨h1, fun _ => trivial⟩
    next hv => exact .pure ⟨.of_absent hs.good hv, fun _ => trivial⟩
  | continue_ | unknown => exact .pure ⟨.refl hs.good, fun _ => trivial⟩

/-- A part of the walk that goes over lines, which then fit. -/
structure VisitsLines (clean : Prop) (m : Module) (R : TypeId → Prop) (s : State) (L : List LineId)
    (s' : State) : Prop where
  visits : Visits clean m R s (m.lineOperands L) s'
  fits : s'.env.Calm clean → FitsLines m s' s'.result L

theorem lineOperands_cons {i : LineId} (hx : m.line? i = some x) (L : List LineId) :
    m.lineOperands (i :: L) = x.operands ++ m.lineOperands L := by
  rw [Module.lineOperands, flatMap_cons, hx]
  rfl

theorem VisitsLines.cons {i : LineId} (hx : m.line? i = some x)
    (h : Visits clean m R s x.operands s') (hfits : s'.env.Calm clean → FitsLine s' s'.result x)
    (h' : VisitsLines clean m R s' L s'') : VisitsLines clean m R s (i :: L) s'' := by
  refine ⟨lineOperands_cons hx L ▸ h.trans h'.visits, fun hc => forall_mem_cons.2 ⟨?_, h'.fits hc⟩⟩
  intro y hy
  obtain rfl := some_inj.1 (hx.symm.trans hy)
  rw [h'.visits.result]
  exact h'.visits.later.fitsLine (hfits (h'.visits.calm hc))

include hm hvalue in
theorem gives_inferLines (hL : ∀ i ∈ L, (m.line? i).isSome = true)
    (hn : ∀ w ∈ m.lineOperands L, w.index < n) (hs : s.Ready clean m R) :
    Gives (inferLines m value L) s fun _ s' => VisitsLines clean m R s L s' := by
  induction L generalizing s with
  | nil => exact .pure ⟨.refl hs.good, fun _ => nofun⟩
  | cons i L ih =>
    obtain ⟨hi, hL⟩ := forall_mem_cons.1 hL
    obtain ⟨x, hx⟩ := isSome_iff_exists.1 hi
    rw [lineOperands_cons hx] at hn
    obtain ⟨hn, hrest⟩ := forall_mem_append.1 hn
    refine (gives_inferLine hm hvalue hx hn hs).bind fun _ s1 ⟨h1, hfits⟩ => ?_
    refine .need_bind hx ?_
    exact (ih hL hrest (h1.ready hs)).bind fun _ s2 h2 => .pure (.cons hx h1 hfits h2)

include hm hvalue in
theorem gives_inferBlock {i : BlockId} {b : Block} (hb : m.block? i = some b)
    (hn : ∀ w ∈ m.blockOperands i, w.index < n) (hs : s.Ready clean m R) :
    Gives (inferBlock m value i) s fun y s' => Visits clean m R s (m.blockOperands i) s' ∧
      s'.env.Has clean y.1 ∧ (b.tail.isValid = true → (b.tail, y.1) ∈ s'.valueTypes) ∧
      (s'.env.Calm clean → FitsLines m s' s'.result (m.linesOf i)) := by
  have hops : m.blockOperands i = m.lineOperands b.lines ++ [b.tail] := by
    rw [Module.blockOperands, hb]
    rfl
  have hlines : m.linesOf i = b.lines := by
    rw [Module.linesOf, hb]
    rfl
  rw [hops] at hn ⊢
  unfold inferBlock
  rw [hb, hlines]
  obtain ⟨hn, htail⟩ := forall_mem_append.1 hn
  refine (gives_inferLines hm hvalue (hm.blocks hb).lines hn hs).bind
    fun diverges s1 ⟨h1, hfits⟩ => ?_
  split
  next hv =>
    refine (hvalue (h1.ready hs) hv (htail _ (mem_singleton_self _))).bind
      fun t s2 ⟨h2, ht, hnote⟩ => .pure ?_
    refine ⟨h1.trans h2, ht, fun _ => hnote, fun hc => ?_⟩
    rw [h2.result]
    exact h2.later.fitsLines (hfits (h2.calm hc))
  next hv =>
    refine .pure ⟨h1.trans (.of_absent h1.moves.good hv), h1.moves.good.has_unit,
      fun hv' => absurd hv' hv, hfits⟩

/-! ## Operators -/

include hvalue in
theorem gives_inferBinary (op : Syntax.BinaryOp) {l r : ValueId} (hl : l.isValid = true)
    (hr : r.isValid = true) (hn : ∀ w ∈ [l, r], w.index < n) (span : Span)
    (hs : s.Ready clean m R) : Gives (inferBinary m value op l r span) s fun t s' =>
      Visits clean m R s [l, r] s' ∧ s'.env.Has clean t := by
  refine (hvalue hs hl (hn l (by simp))).bind fun left s1 ⟨h1, hleft, _⟩ => ?_
  have hs1 := h1.ready hs
  refine (hvalue hs1 hr (hn r (by simp))).bind fun right s2 ⟨h2, hright, _⟩ => ?_
  have hs2 := h2.ready hs1
  have hleft2 := h2.has hleft
  have h : Visits clean m R s [l, r] s2 := h1.trans h2
  -- by the class of the operator
  split
  next =>
    refine (gives_unifyValue hs2 hs2.good.has_bool hleft2 l _).bind fun _ s3 ⟨h3, _⟩ => ?_
    have hs3 := h3.ready hs2
    refine (gives_unifyValue hs3 hs3.good.has_bool (h3.has hright) r _).bind fun _ s4 ⟨h4, _⟩ =>
      .pure ?_
    exact ⟨(h.step h3).step h4, h4.moves.good.has_bool⟩
  next =>
    refine (gives_solve m R (yields_unqualified_has hs2.good hleft2)).bind fun a s3 ⟨h3, ha⟩ => ?_
    have hs3 := h3.ready hs2
    refine (gives_solve m R (yields_unqualified_has hs3.good (h3.has hright))).bind
      fun b s4 ⟨h4, hb⟩ => ?_
    refine (gives_unifyValue (h4.ready hs3) (h4.has ha) hb r span).bind fun _ s5 ⟨h5, _⟩ => .pure ?_
    exact ⟨((h.step h3).step h4).step h5, h5.moves.good.has_bool⟩
  next =>
    have hordering : Yields (do
        if !(← unify (← unqualified left) (← unqualified right) span).isMismatch then
          discard (requireOperand m l left op.toText Kind.isNumeric "numbers")
        return Builtin.bool) s2.env (s2.env.Gains clean) := by
      refine yields_unifyOperands hs2.good hleft2 hright span fun fit e hmoves _ => ?_
      cases fit.isMismatch with
      | true => exact .pure ⟨hmoves, hmoves.good.has_bool⟩
      | false =>
        have hover := (hleft2.mono hmoves).isOver
        refine (yields_requireOperand clean hmoves.good hover ..).bind fun _ e' ⟨hmoves', _⟩ =>
          .pure ?_
        exact ⟨hmoves.trans hmoves', hmoves'.good.has_bool⟩
    exact (gives_solve m R hordering).mono fun t s3 ⟨h3, ht⟩ => ⟨h.step h3, ht⟩
  iterate 2 next =>
    refine (gives_solve m R (yields_inferNumbers hs2.good hleft2 hright ..)).mono
      fun t s3 ⟨h3, ht⟩ => ?_
    exact ⟨h.step h3, ht⟩

include hvalue in
theorem gives_inferUnary {op : Syntax.UnaryOp} (hop : op.isDeclared = true) (hv : v.isValid = true)
    (hn : v.index < n) (span : Span) (hs : s.Ready clean m R) :
    Gives (inferUnary m value op v span) s fun t s' =>
      Visits clean m R s [v] s' ∧ s'.env.Has clean t := by
  refine (hvalue hs hv hn).bind fun operand s1 ⟨h1, hoperand, _⟩ => ?_
  have hs1 := h1.ready hs
  obtain rfl | rfl : op = .neg ∨ op = .not := by simpa [Syntax.UnaryOp.isDeclared] using hop
  · refine (gives_solve m R (yields_inferNeg hs1.good hoperand v span)).mono fun t s2 ⟨h2, ht⟩ => ?_
    exact ⟨h1.step h2, ht⟩
  · refine (gives_unifyValue hs1 hs1.good.has_bool hoperand v span).bind fun _ s2 ⟨h2, _⟩ =>
      .pure ?_
    exact ⟨h1.step h2, h2.moves.good.has_bool⟩

/-! ## Calls -/

include hvalue in
theorem gives_inferArgs (hvs : ∀ v ∈ vs, v.isValid = true) (hn : ∀ w ∈ vs, w.index < n)
    (hs : s.Ready clean m R) :
    Gives (inferArgs value vs) s fun ts s' => Visits clean m R s vs s' ∧
      (∀ t ∈ ts, s'.env.Has clean t) ∧ List.Forall₂ (fun v t => (v, t) ∈ s'.valueTypes) vs ts := by
  induction vs generalizing s with
  | nil => exact .pure ⟨.refl hs.good, nofun, .nil⟩
  | cons v vs ih =>
    obtain ⟨hv, hvs⟩ := forall_mem_cons.1 hvs
    obtain ⟨hlt, hn⟩ := forall_mem_cons.1 hn
    refine (hvalue hs hv hlt).bind fun t s1 ⟨h1, ht, hnote⟩ => ?_
    refine (ih hvs hn (h1.ready hs)).bind fun ts s2 ⟨h2, hts, hnotes⟩ => .pure ?_
    exact ⟨h1.trans h2, forall_mem_cons.2 ⟨h2.has ht, hts⟩, .cons (h2.later.values hnote) hnotes⟩

theorem gives_unifyArgs (hps : ∀ p ∈ ps, s.env.Has clean p)
    (hts : ∀ t ∈ ts, s.env.Has clean t) (hs : s.Ready clean m R) (hlen : vs.length = ts.length) :
    Gives (unifyArgs m vs ps ts) s fun _ s' => Visits clean m R s [] s' ∧ (s'.env.Calm clean →
      ∀ (k : Nat) (p t : TypeId), ps[k]? = some p → ts[k]? = some t → s'.env.Agree p t) := by
  induction vs generalizing s ps ts with
  | nil =>
    obtain rfl := length_eq_zero_iff.1 hlen.symm
    exact .pure ⟨.refl hs.good, fun _ k p t _ ht => nomatch ht⟩
  | cons v vs ih =>
    cases ts with
    | nil => cases hlen
    | cons t ts =>
      cases ps with
      | nil => exact .pure ⟨.refl hs.good, fun _ k p t hp _ => nomatch hp⟩
      | cons p ps =>
        obtain ⟨hp, hps⟩ := forall_mem_cons.1 hps
        obtain ⟨ht, hts⟩ := forall_mem_cons.1 hts
        refine (gives_unifyValue hs hp ht v _).bind fun _ s1 ⟨h1, hagree⟩ => ?_
        refine (ih (fun p hp => h1.has (hps p hp)) (fun t ht => h1.has (hts t ht)) (h1.ready hs)
          (Nat.succ.inj hlen)).mono fun _ s2 ⟨h2, hagrees⟩ => ⟨h1.step h2, fun hc k => ?_⟩
        cases k with
        | zero =>
          rintro _ _ ⟨⟩ ⟨⟩
          exact (hagree (h2.calm hc)).mono h2.moves.ext
        | succ k => exact hagrees hc k

/-- What agrees with a function type can be applied to what that function takes. -/
theorem Env.Agree.applies (good : e.Good)
    (hi : e.Over i) (hview : e.types.view i = .fn ts r) (h : e.Agree t i) : e.Applies t ts := by
  intro f hgood hext u hu
  have hview' := (hi.view_eq good.types hext.types).trans hview
  obtain ⟨w, hw⟩ := hgood.total (hext.isOver good hi)
  obtain ⟨us, q, rfl, hlen, hq, hus⟩ := hw.of_fn hview'
  have harg (us' : List TypeTerm) (hcompatible : ∀ (k : Nat) (p q : TypeTerm), us'[k]? = some p →
      us[k]? = some q → Compatible TypeTerm.isAbsorbing p q) (k : Nat) (a : TypeId) (p b : TypeTerm)
      (hp : us'[k]? = some p) (ha : ts[k]? = some a) (hb : f.Denotes a b) :
      Compatible TypeTerm.isAbsorbing p b := by
    have hk := (List.getElem?_eq_some_iff.1 ha).1
    have hq := List.getElem?_eq_getElem (hlen ▸ hk : k < us.length)
    rw [hb.functional (hus k a _ ha hq)]
    exact hcompatible k p _ hp hq
  cases h hext hu hw with
  | freeLeft hfree => exact .inl hfree
  | freeRight hfree => exact hfree.elim nofun nofun
  | refl =>
    refine .inr ⟨us, q, rfl, hlen.symm, harg us fun k p p' hp hp' => ?_⟩
    cases hp.symm.trans hp'
    exact .refl p
  | @fn ps _ q' _ hlen' hcompatible =>
    exact .inr ⟨ps, q', rfl, hlen'.trans hlen.symm, harg ps hcompatible⟩

/-- A function type can be applied to what agrees with its parameters. -/
theorem Env.Applies.of_params (good : e.Good)
    (hi : e.Over i) (hview : e.types.view i = .fn ps r) (hlen : ps.length = ts.length)
    (h : ∀ (k : Nat) (p t : TypeId), ps[k]? = some p → ts[k]? = some t → e.Agree p t) :
    e.Applies i ts := by
  intro f hgood hext u hu
  obtain ⟨us, q, rfl, hlen', hq, hus⟩ := hu.of_fn ((hi.view_eq good.types hext.types).trans hview)
  refine .inr ⟨us, q, rfl, hlen'.symm.trans hlen, fun k a q b hq ha hb => ?_⟩
  have hp := List.getElem?_eq_getElem (hlen ▸ (List.getElem?_eq_some_iff.1 ha).1 : k < ps.length)
  exact h k _ a hp ha hext (hus k _ q hp hq) hb

theorem Env.Aliases.applies {e e' e'' : Env} {i j : TypeId} (h : e.Aliases i j e')
    (hext : e'.Extends e'') (happlies : e''.Applies j ts) : e''.Applies i ts :=
  fun _ good hf _ hu => happlies good hf ((h.same (hext.trans hf)).1 hu)

theorem yields_fnType_has (good : e.Good) (hps : ∀ p ∈ ps, e.Has clean p) (hr : e.Has clean r) :
    Yields (fnType ps r) e fun i e' => e.Moves clean e' ∧ e'.Has clean i ∧
      e'.types.view i = .fn ps r := by
  have hparts : ∀ p ∈ r :: ps, e.Over p :=
    forall_mem_cons.2 ⟨hr.isOver, fun p hp => (hps p hp).isOver⟩
  refine (yields_fnType good hparts).mono fun i e' ⟨⟨slot, hmade⟩, hview⟩ => ?_
  have hmoves : e.Moves clean e' := .of_keeps good hmade.toKeeps
  exact ⟨hmoves, .fn (fun p hp => (hps p hp).mono hmoves) (hr.mono hmoves) hview, hview⟩

theorem exists_signature_of_describe {slot : Nat} (good : e.Good)
    (h : (e.types.describe i).shape = .fn slot) :
    ∃ sig, e.types.signature? i = some sig ∧ e.types.view i = .fn sig.params sig.result := by
  unfold TypeTable.describe at h
  cases hlook : e.types.lookup? i with
  | none =>
    rw [hlook] at h
    cases h
  | some ty =>
    obtain ⟨shape, modifier⟩ := ty
    rw [hlook] at h
    cases h
    obtain ⟨sig, hsig, -⟩ := good.types.exists_signature hlook
    refine ⟨sig, hsig, ?_⟩
    unfold TypeTable.view
    rw [hlook, hsig]

theorem kind_of_describe {T : TypeTable}
    (h : (T.describe i).shape = .plain .error) : T.kind i = .error := by
  unfold TypeTable.describe at h
  unfold TypeTable.kind
  cases hlook : T.lookup? i with
  | none =>
    rw [hlook] at h
    cases h
  | some ty =>
    rw [hlook] at h
    show ty.shape.kind = _
    rw [show ty.shape = .plain .error from h]
    rfl

include hvalue in
theorem gives_inferCall {f : ValueId} {args : List ValueId} (hf : f.isValid = true)
    (hargs : ∀ v ∈ args, v.isValid = true) (hn : ∀ w ∈ f :: args, w.index < n)
    (candidates : List DeclId) (span : Span) (hs : s.Ready clean m R) :
    Gives (inferCall m value f args span) s fun t s' => Visits clean m R s (f :: args) s' ∧
      s'.env.Has clean t ∧ (s'.env.Calm clean → FitsForm s' (.call f args candidates)) := by
  obtain ⟨hlt, hn⟩ := forall_mem_cons.1 hn
  refine (hvalue hs hf hlt).bind fun t s1 ⟨h1, ht, hnote⟩ => ?_
  have halias : Gives (solve (resolve t)) s1 fun j s' =>
      Visits clean m R s1 [] s' ∧ s1.env.Aliases t j s'.env :=
    gives_solve m R ((yields_resolve h1.moves.good ht.isOver).mono fun _ _ h =>
      ⟨h.aliases.moves h1.moves.good clean, h.aliases⟩)
  refine halias.bind fun callee s2 ⟨h2, halias⟩ => ?_
  have hs2 := h2.ready (h1.ready hs)
  refine (gives_inferArgs hvalue hargs hn hs2).bind fun ts s3 ⟨h3, hts, hnotes⟩ => ?_
  have hs3 := h3.ready hs2
  have hcallee := h3.has (halias.has h1.moves.good ht)
  have h : Visits clean m R s (f :: args) s3 := (h1.step h2).trans h3
  -- a later state in which the callee can be applied is all that is asked for
  have hfits {s4 : State} (h4 : Visits clean m R s3 [] s4) (happlies : s4.env.Applies callee ts) :
      FitsForm s4 (.call f args candidates) :=
    ⟨t, ts, ((h2.trans h3).step h4).later.values hnote, hnotes.imp fun _ _ hn => h4.later.values hn,
      halias.applies ((h3.step h4).moves.ext) happlies⟩
  refine .step rfl ?_
  split
  next hshape =>
    have herror := hcallee.error_of_kind hs3.good (kind_of_describe hshape)
    refine .pure ⟨h, herror, fun hc => ?_⟩
    cases herror.solid _ (.atom hs3.good.types.view_error) with
    | atom hsolid => exact absurd rfl (hsolid.ne_error hc)
  next =>
    have hunknown : Yields (do
        let ret ← fresh span
        discard (unify callee (← fnType ts ret) span)
        return ret) s3.env fun ret e => s3.env.Moves clean e ∧ e.Has clean ret ∧
          (e.Calm clean → e.Applies callee ts) := by
      refine (yields_fresh_has clean hs3.good span).bind fun ret e1 ⟨hm1, hret⟩ => ?_
      refine (yields_fnType_has hm1.good (fun t ht => (hts t ht).mono hm1) hret).bind ?_
      rintro i e2 ⟨hm2, hi, hview⟩
      have hcallee2 := hcallee.mono (hm1.trans hm2)
      refine (yields_unify_agree hm2.good hcallee2 hi span).bind fun _ e3 ⟨hm3, _, hagree⟩ =>
        .pure ?_
      refine ⟨(hm1.trans hm2).trans hm3, (hret.mono hm2).mono hm3, fun hc => ?_⟩
      have hview3 := (hi.isOver.view_eq hm2.good.types hm3.ext.types).trans hview
      exact (hagree hc).applies hm3.good (hi.mono hm3).isOver hview3
    refine (gives_solve m R hunknown).mono fun ret s4 ⟨h4, hret, happlies⟩ => ?_
    exact ⟨h.step h4, hret, fun hc => hfits h4 (happlies hc)⟩
  next hshape =>
    obtain ⟨sig, hsig, hview⟩ := exists_signature_of_describe hs3.good hshape
    obtain ⟨hps, hresult⟩ := hcallee.signature hs3.good hview
    refine .need_bind hsig ?_
    split
    next =>
      refine (gives_solve m R (yields_report_fault clean hs3.good (by decide) (by decide) ..)).bind
        ?_
      rintro _ s4 ⟨h4, hfault⟩
      exact .pure ⟨h.step h4, h4.has hresult, fun hc => absurd hc hfault⟩
    next hlen =>
      have hlen' := hnotes.length_eq
      refine (gives_unifyArgs hps hts hs3 hlen').bind fun _ s4 ⟨h4, hagrees⟩ => .pure ?_
      refine ⟨h.step h4, h4.has hresult, fun hc => hfits h4 ?_⟩
      have hview4 := (hcallee.isOver.view_eq hs3.good.types h4.moves.ext.types).trans hview
      exact .of_params h4.moves.good (h4.has hcallee).isOver hview4 (by omega) (hagrees hc)
  next =>
    refine (gives_solve m R (yields_wrongType clean hs3.good hcallee.isOver ..)).bind ?_
    rintro _ s4 ⟨h4, hfault⟩
    exact .pure ⟨h.step h4, h4.moves.good.has_error hfault, fun hc => absurd hc hfault⟩

include hm hvalue in
theorem gives_inferCast {target : TypeId} (hv : v.isValid = true)
    (htarget : m.types.Closed clean target)
    (hn : v.index < n) (span : Span) (hs : s.Ready clean m R) :
    Gives (inferCast value v target span) s fun t s' =>
      Visits clean m R s [v] s' ∧ s'.env.Has clean t := by
  refine (hvalue hs hv hn).bind fun t s1 ⟨h1, ht, _⟩ => ?_
  refine (gives_solve m R (yields_resolve_has h1.moves.good ht)).bind
    fun source s2 ⟨h2, hsource⟩ => ?_
  have hs2 := h2.ready (h1.ready hs)
  have htarget2 : s2.env.Has clean target := .of_closed htarget hm.types hs2.types
  rw [if_pos htarget2.isValid]
  refine (gives_solve_moves m R (yields_checkCast hs2.good hsource htarget2 span)).bind ?_
  exact fun _ s3 h3 => .pure ⟨(h1.step h2).step h3, h3.has htarget2⟩

/-! ## Branches and loops -/

include hvalue in
theorem gives_expectBool (hs : s.Ready clean m R) (hv : v.isValid = true) (hn : v.index < n) :
    Gives (expectBool m value v) s fun _ s' =>
      Visits clean m R s [v] s' ∧ (s'.env.Calm clean → s'.Agrees Builtin.bool v) := by
  refine (hvalue hs hv hn).bind fun got s1 ⟨h1, hgot, hnote⟩ => ?_
  refine (gives_unifyValue (h1.ready hs) h1.moves.good.has_bool hgot v _).mono
    fun _ s2 ⟨h2, hagree⟩ => ?_
  exact ⟨h1.step h2, fun hc => ⟨got, h2.later.values hnote, hagree hc⟩⟩

include hvalue in
theorem gives_condition {α : Type} {f : Infer α} {Q : α → State → Prop} (hs : s.Ready clean m R)
    (hn : cond.index < n)
    (hf : ∀ s', Visits clean m R s [cond] s' →
      (s'.env.Calm clean → cond.isValid = true → s'.Agrees Builtin.bool cond) → Gives f s' Q) :
    Gives (do
      if cond.isValid then expectBool m value cond
      f) s Q := by
  by_cases hv : cond.isValid = true
  · rw [if_pos hv]
    refine (gives_expectBool hvalue hs hv hn).bind fun _ s1 ⟨h1, hbool⟩ => ?_
    exact hf s1 h1 fun hc _ => hbool hc
  · rw [if_neg hv]
    exact hf s (.of_absent hs.good hv) fun _ hv' => absurd hv' hv

/-- What typing branches gives: all of them have been gone over and fit. -/
structure VisitsBranches (clean : Prop) (m : Module) (R : TypeId → Prop) (s : State)
    (branches : List (ValueId × BlockId)) (s' : State) : Prop where
  visits : Visits clean m R s (m.branchOperands branches) s'
  conditions : s'.env.Calm clean → ∀ x ∈ branches, x.1.isValid = true → s'.Agrees Builtin.bool x.1
  lines : s'.env.Calm clean → ∀ x ∈ branches, FitsLines m s' s'.result (m.linesOf x.2)

theorem VisitsBranches.cons {s1 s2 s3 : State}
    (hcond : Visits clean m R s [cond] s1)
    (hbool : s1.env.Calm clean → cond.isValid = true → s1.Agrees Builtin.bool cond)
    (hbody : Visits clean m R s1 (m.blockOperands body) s2)
    (hlines : s2.env.Calm clean → FitsLines m s2 s2.result (m.linesOf body))
    (h : VisitsBranches clean m R s2 branches s3) :
    VisitsBranches clean m R s ((cond, body) :: branches) s3 where
  visits := (hcond.trans hbody).trans h.visits
  conditions hc := by
    have hlater := hbody.trans h.visits
    refine forall_mem_cons.2 ⟨fun hv => ?_, h.conditions hc⟩
    exact hlater.later.agrees (hbool (hlater.calm hc) hv)
  lines hc := by
    refine forall_mem_cons.2 ⟨?_, h.lines hc⟩
    rw [h.visits.result]
    exact h.visits.later.fitsLines (hlines (h.visits.calm hc))

theorem VisitsBranches.before (h : Visits clean m R s [] s')
    (h' : VisitsBranches clean m R s' branches s'') : VisitsBranches clean m R s branches s'' :=
  ⟨h.trans h'.visits, h'.conditions, h'.lines⟩

theorem VisitsBranches.step
    (h : VisitsBranches clean m R s branches s') (h' : Visits clean m R s' [] s'') :
    VisitsBranches clean m R s branches s'' where
  visits := h.visits.step h'
  conditions hc x hx hv := h'.later.agrees (h.conditions (h'.calm hc) x hx hv)
  lines hc x hx := h'.result ▸ h'.later.fitsLines (h.lines (h'.calm hc) x hx)

include hm hvalue in
theorem gives_inferBranches {first : TypeId} {hasElse : Bool}
    (hblocks : ∀ x ∈ branches, (m.block? x.2).isSome = true)
    (hn : ∀ w ∈ m.branchOperands branches, w.index < n) (hs : s.Ready clean m R)
    (hfirst : first.isValid = true → s.env.Has clean first) :
    Gives (inferBranches m value first hasElse branches) s fun y s' =>
      VisitsBranches clean m R s branches s' ∧ (y.1.isValid = true → s'.env.Has clean y.1) := by
  induction branches generalizing s first hasElse with
  | nil => exact .pure ⟨⟨.refl hs.good, fun _ => nofun, fun _ => nofun⟩, hfirst⟩
  | cons x branches ih =>
    obtain ⟨cond, body⟩ := x
    obtain ⟨hblock, hblocks⟩ := forall_mem_cons.1 hblocks
    obtain ⟨b, hb⟩ := isSome_iff_exists.1 hblock
    have hops : m.branchOperands ((cond, body) :: branches) =
        [cond] ++ m.blockOperands body ++ m.branchOperands branches := rfl
    rw [hops] at hn
    refine gives_condition hvalue hs (hn cond (by simp)) fun s1 h1 hcond => ?_
    have hs1 := h1.ready hs
    refine (gives_inferBlock hm hvalue hb (fun w hw => hn w (by simp [hw])) hs1).bind ?_
    rintro ⟨t, diverges⟩ s2 ⟨h2, ht, hnote, hlines⟩
    have hs2 := h2.ready hs1
    -- the other branches are typed behind this one
    have hrest (hasElse' : Bool) {next : TypeId} {s3 : State} (h3 : Visits clean m R s2 [] s3)
        (hnext : next.isValid = true → s3.env.Has clean next) :
        Gives (inferBranches m value next hasElse' branches) s3 fun y s' =>
          VisitsBranches clean m R s ((cond, body) :: branches) s' ∧
            (y.1.isValid = true → s'.env.Has clean y.1) := by
      refine (ih hblocks (fun w hw => hn w (by simp [hw])) (h3.ready hs2) hnext).mono ?_
      exact fun y s4 ⟨h4, hy⟩ => ⟨.cons h1 hcond h2 hlines (.before h3 h4), hy⟩
    dsimp only
    split
    next => exact hrest _ (.refl hs2.good) fun hvalid => h2.has (h1.has (hfirst hvalid))
    next =>
      split
      next => exact hrest _ (.refl hs2.good) fun _ => ht
      next hvalid =>
        have hfirst2 : s2.env.Has clean first := h2.has (h1.has (hfirst (by simpa using hvalid)))
        refine .need_bind hb ?_
        split
        next =>
          refine (gives_unifyValue hs2 hfirst2 ht _ _).bind fun _ s3 ⟨h3, _⟩ => ?_
          exact hrest _ h3 fun _ => h3.has hfirst2
        next =>
          obtain ⟨span, hspan⟩ := (hm.blocks hb).span
          refine .need_bind hspan ?_
          refine (Gives.discard ?_).bind fun _ s3 h3 => hrest _ h3 fun _ => h3.has hfirst2
          exact (gives_solve m R (yields_unify_agree hs2.good hfirst2 ht _)).mono fun _ _ h => h.1

theorem exists_lookup {α β : Type} [BEq α] [LawfulBEq α] {l : List (α × β)} {k : α} {x : β}
    (h : (k, x) ∈ l) : ∃ y, l.lookup k = some y ∧ (k, y) ∈ l := by
  cases hlook : l.lookup k with
  | none => simpa using lookup_eq_none_iff.1 hlook _ h
  | some y =>
    obtain ⟨l1, l2, rfl, -⟩ := lookup_eq_some_iff.1 hlook
    exact ⟨y, rfl, by simp⟩

theorem gives_dropBranchValues (hblocks : ∀ x ∈ branches, (m.block? x.2).isSome = true)
    (hnotes : ∀ x ∈ branches, ∀ b, m.block? x.2 = some b → b.tail.isValid = true →
      ∃ t, (b.tail, t) ∈ s.valueTypes) (hs : s.Ready clean m R) :
    Gives (dropBranchValues m branches) s fun _ s' => Visits clean m R s [] s' := by
  induction branches generalizing s with
  | nil => exact .pure (.refl hs.good)
  | cons x branches ih =>
    obtain ⟨hblock, hblocks⟩ := forall_mem_cons.1 hblocks
    obtain ⟨hnote, hnotes⟩ := forall_mem_cons.1 hnotes
    obtain ⟨b, hb⟩ := isSome_iff_exists.1 hblock
    have hrest {s1 : State} (h1 : Visits clean m R s [] s1) :
        Gives (dropBranchValues m branches) s1 fun _ s' => Visits clean m R s [] s' := by
      refine (ih hblocks (fun x hx b hb hv => ?_) (h1.ready hs)).mono fun _ s2 h2 => h1.step h2
      exact (hnotes x hx b hb hv).imp fun _ ht => h1.later.values ht
    refine .need_bind hb ?_
    split
    next hv =>
      obtain ⟨_, hmem⟩ := hnote b hb hv
      obtain ⟨t, hlook, ht⟩ := exists_lookup hmem
      refine .step rfl ?_
      rw [hlook]
      refine (gives_unifyValue hs hs.good.has_unit (hs.values _ ht) _ _).bind fun _ s1 ⟨h1, _⟩ => ?_
      exact hrest h1
    next => exact hrest (.refl hs.good)

include hm hvalue in
theorem gives_inferIf {chain : Option Chain} {c : Chain} (hc : chain = some c)
    (hblocks : ∀ x ∈ c.branches, (m.block? x.2).isSome = true)
    (hn : ∀ w ∈ m.branchOperands c.branches, w.index < n) (hs : s.Ready clean m R) :
    Gives (inferIf m value chain) s fun t s' =>
      VisitsBranches clean m R s c.branches s' ∧ s'.env.Has clean t := by
  subst hc
  refine (gives_inferBranches hm hvalue hblocks hn hs fun h => absurd h (by decide)).bind ?_
  rintro ⟨first, hasElse⟩ s1 ⟨h1, hfirst⟩
  have hs1 := h1.visits.ready hs
  cases hasElse with
  | true =>
    refine .pure ⟨h1, ?_⟩
    split
    next hvalid => exact hfirst hvalid
    next => exact hs1.good.has_unit
  | false =>
    refine (gives_dropBranchValues hblocks (fun x hx b hb hv => ?_) hs1).bind fun _ s2 h2 =>
      .pure ?_
    · refine h1.visits.noted (mem_flatMap.2 ⟨x, hx, mem_cons_of_mem _ ?_⟩) hv
      rw [Module.blockOperands, hb]
      exact mem_append_right _ (mem_singleton_self _)
    · exact ⟨h1.step h2, h2.moves.good.has_unit⟩

include hm hvalue in
theorem gives_inferFor (hclean : ¬ clean) {iter : ValueId} (hl : (m.local? l).isSome = true)
    (hiter : iter.isValid = true) (hbody : (m.block? body).isSome = true)
    (hn : ∀ w ∈ iter :: m.blockOperands body, w.index < n) (span : Span) (hs : s.Ready clean m R) :
    Gives (inferFor m value l iter body span) s fun _ s' =>
      Visits clean m R s (iter :: m.blockOperands body) s' := by
  obtain ⟨hlt, hn⟩ := forall_mem_cons.1 hn
  obtain ⟨x, hx⟩ := isSome_iff_exists.1 hl
  obtain ⟨b, hb⟩ := isSome_iff_exists.1 hbody
  refine (hvalue hs hiter hlt).bind fun t s1 ⟨h1, ht, _⟩ => ?_
  refine (gives_solve m R (yields_throughReference h1.moves.good ht)).bind ?_
  rintro ⟨i, ty⟩ s2 ⟨h2, hi, hty⟩
  have hs2 := h2.ready (h1.ready hs)
  obtain ⟨slot, hlook, hslot, -⟩ := hs2.locals hx
  refine .step rfl ?_
  rw [hlook]
  have hunify {elem : TypeId} (helem : s2.env.Has clean elem) :
      Gives (discard (solve (unify slot elem span))) s2 fun _ s' => Visits clean m R s2 [] s' :=
    .discard ((gives_solve m R (yields_unify_agree hs2.good hslot helem span)).mono
      fun _ _ h => h.1)
  refine (hunify ?_).bind fun _ s3 h3 => ?_
  · split
    next hshape =>
      rw [show ty = _ from hty] at hshape
      exact hi.elem (view_of_describe (by rw [hshape]; rfl))
    next => exact hs2.good.has_error fun hcalm => hclean hcalm.1
  · refine .discard ((gives_inferBlock hm hvalue hb hn (h3.ready hs2)).mono ?_)
    rintro _ s4 ⟨h4, -⟩
    exact ((h1.step h2).step h3).trans h4

/-! ## The walk -/

theorem has_funcType (hm : m.Regular clean) {d : DeclId} (hs : s.Ready clean m R)
    (h : clean → m.HasFunc d) : s.env.Has clean (funcType m d) := by
  unfold funcType
  cases hfunc : (m.item? d).bind Item.func with
  | none =>
    refine hs.good.has_error fun hcalm => ?_
    obtain ⟨i, f, hi, hf⟩ := h hcalm.1
    rw [hi, bind_some, hf] at hfunc
    cases hfunc
  | some f =>
    obtain ⟨i, hi, hf⟩ := bind_eq_some_iff.1 hfunc
    exact .of_closed ((hm.items hi).func f hf).closed_type hm.types hs.types

theorem yields_intern_wrap {shape : Shape} {w : Wrapper} (good : e.Good)
    (hi : e.Has clean i) (hshape : shape.wrap? = some (w, i)) :
    Yields (intern (.ofShape shape)) e (e.Gains clean) := by
  have hadmits : e.types.Admits e.types.size shape :=
    TypeTable.admits_of_wrap hshape (hi.isOver.lt_size good.types)
  refine (yields_intern good hadmits).mono fun j e' hmade => ?_
  have hmoves : e.Moves clean e' := .of_keeps good hmade.toKeeps
  exact ⟨hmoves, (hi.mono hmoves).wrap (TypeTable.view_of_wrap hmade.lookup? hshape)⟩

theorem FitsValue.of_leaf {x : Value} (hform : FitsForm s x) (hblocks : x.blocks = []) :
    FitsValue m s r x :=
  ⟨hform, fun b hb => by simp [hblocks] at hb⟩

include hm hvalue in
/-- Every form of a value. -/
theorem gives_inferForm {x : Value} (hx : m.ProperValue clean m.HasFunc x)
    (hn : ∀ w ∈ m.operandsOf x, w.index < n) (span : Span) (hs : s.Ready clean m R) :
    Gives (inferForm m value x span) s fun t s' => Visits clean m R s (m.operandsOf x) s' ∧
      s'.env.Has clean t ∧ (s'.env.Calm clean → FitsValue m s' s'.result x) := by
  have hblock {i : BlockId} {s : State} (hi : (m.block? i).isSome = true)
      (hn : ∀ w ∈ m.blockOperands i, w.index < n) (hs : s.Ready clean m R) :
      Gives (inferBlock m value i) s fun y s' => Visits clean m R s (m.blockOperands i) s' ∧
        s'.env.Has clean y.1 ∧ (s'.env.Calm clean → FitsLines m s' s'.result (m.linesOf i)) := by
    obtain ⟨b, hb⟩ := isSome_iff_exists.1 hi
    exact (gives_inferBlock hm hvalue hb hn hs).mono fun _ _ h => ⟨h.1, h.2.1, h.2.2.2⟩
  cases x with
  | poison =>
    exact .pure ⟨.refl hs.good, hs.good.has_error fun hc => hx hc.1, fun _ => .of_leaf trivial rfl⟩
  | literal kind text =>
    refine (gives_solve m R (yields_inferLiteral clean hs.good hx span)).mono
      fun t s1 ⟨h1, ht⟩ => ?_
    exact ⟨h1, ht, fun _ => .of_leaf trivial rfl⟩
  | load place =>
    refine (gives_inferPlace hm hvalue span hx hn hs).mono fun t s1 ⟨h1, ht, _⟩ => ?_
    exact ⟨h1, ht, fun _ => .of_leaf trivial rfl⟩
  | funcRef d => exact .pure ⟨.refl hs.good, has_funcType hm hs hx, fun _ => .of_leaf trivial rfl⟩
  | binary op l r =>
    refine (gives_inferBinary hvalue op hx.1 hx.2 hn span hs).mono fun t s1 ⟨h1, ht⟩ => ?_
    exact ⟨h1, ht, fun _ => .of_leaf trivial rfl⟩
  | unary op v =>
    refine (gives_inferUnary hvalue hx.1 hx.2 (hn v (mem_singleton_self v)) span hs).mono ?_
    exact fun t s1 ⟨h1, ht⟩ => ⟨h1, ht, fun _ => .of_leaf trivial rfl⟩
  | ref place isMut =>
    refine (gives_inferPlace hm hvalue span hx hn hs).bind fun t s1 ⟨h1, ht, _⟩ => ?_
    have href : Yields (do
        let inner ← unqualified (← resolve t)
        intern (.ofShape (.reference isMut inner))) s1.env (s1.env.Gains clean) := by
      refine (yields_resolve_has h1.moves.good ht).bind fun a e1 ⟨hm1, ha⟩ => ?_
      refine (yields_unqualified_has hm1.good ha).bind fun b e2 ⟨hm2, hb⟩ => ?_
      exact .after (hm1.trans hm2) (yields_intern_wrap hm2.good hb rfl)
    refine (gives_solve m R href).mono fun t s2 ⟨h2, ht⟩ => ?_
    exact ⟨h1.step h2, ht, fun _ => .of_leaf trivial rfl⟩
  | call f args candidates =>
    refine (gives_inferCall hvalue hx.1 hx.2 hn candidates span hs).mono
      fun t s1 ⟨h1, ht, hfits⟩ => ?_
    exact ⟨h1, ht, fun hc => .of_leaf (hfits hc) rfl⟩
  | cast v target =>
    refine (gives_inferCast hm hvalue hx.1 hx.2 (hn v (mem_singleton_self v)) span hs).mono ?_
    exact fun t s1 ⟨h1, ht⟩ => ⟨h1, ht, fun _ => .of_leaf trivial rfl⟩
  | block b =>
    refine (hblock hx hn hs).bind fun y s1 ⟨h1, hy, hlines⟩ => .pure ⟨h1, hy, fun hc => ?_⟩
    exact ⟨trivial, by simpa [Value.blocks] using hlines hc⟩
  | ifElse chain =>
    obtain ⟨c, rfl, hblocks⟩ := hx
    refine (gives_inferIf hm hvalue rfl hblocks hn hs).mono fun t s1 ⟨h1, ht⟩ => ?_
    refine ⟨h1.visits, ht, fun hc => ⟨h1.conditions hc, fun b hb => ?_⟩⟩
    obtain ⟨x, hx, rfl⟩ := mem_map.1 hb
    exact h1.lines hc x hx
  | whileLoop cond body =>
    obtain ⟨hcond, hn⟩ := forall_mem_cons.1 hn
    refine gives_condition hvalue hs hcond fun s1 h1 hbool => ?_
    refine (Gives.discard (Q := fun s' => Visits clean m R s1 (m.blockOperands body) s' ∧
      (s'.env.Calm clean → FitsLines m s' s'.result (m.linesOf body))) ?_).bind ?_
    · exact (hblock hx hn (h1.ready hs)).mono fun _ _ h => ⟨h.1, h.2.2⟩
    · intro _ s2 ⟨h2, hlines⟩
      refine .pure ⟨h1.trans h2, h2.moves.good.has_unit, fun hc => ⟨fun hv => ?_, ?_⟩⟩
      · exact h2.later.agrees (hbool (h2.calm hc) hv)
      · simpa [Value.blocks] using hlines hc
  | forLoop l iter body =>
    obtain ⟨hclean, hl, hiter, hbody⟩ := hx
    refine (gives_inferFor hm hvalue hclean hl hiter hbody hn span hs).bind fun _ s1 h1 => .pure ?_
    exact ⟨h1, h1.moves.good.has_unit, fun hc => absurd hc.1 hclean⟩
  | stackArray elem count =>
    have harray : Yields (do
        let e ← if elem.isValid then pure elem else fresh span
        intern (.ofShape (.array .stack e count))) s.env (s.env.Gains clean) := by
      split
      next hvalid =>
        exact .step rfl (yields_intern_wrap hs.good (.of_closed (hx hvalid) hm.types hs.types) rfl)
      next =>
        refine (yields_fresh_has clean hs.good span).bind fun t e1 ⟨hm1, ht⟩ => ?_
        exact .after hm1 (yields_intern_wrap hm1.good ht rfl)
    refine (gives_solve m R harray).mono fun t s1 ⟨h1, ht⟩ => ?_
    exact ⟨h1, ht, fun _ => .of_leaf trivial rfl⟩
  | broken | unknown => exact hx.elim

theorem infers_inferValue (hm : m.Regular clean) {fuel : Nat} (hfuel : n ≤ fuel)
    (hn : n ≤ m.values.size) : Infers clean m R (inferValue m fuel) n := by
  induction fuel generalizing n with
  | zero =>
    obtain rfl := Nat.le_zero.1 hfuel
    exact fun _ _ hlt => absurd hlt (Nat.not_lt_zero _)
  | succ fuel ih =>
    intro s v hs hv hlt
    obtain ⟨x, hx⟩ := Module.Regular.value?_of_index_lt hv (hlt.trans_le hn)
    have hops : m.operands v = m.operandsOf x := by
      rw [Module.operands, hx]
      rfl
    unfold inferValue
    rw [hx]
    have hbefore : ∀ w ∈ m.operandsOf x, w.index < v.index :=
      fun w hw => hm.backward v w (hops ▸ hw)
    refine (gives_inferForm hm (ih (by omega) (by omega)) (hm.values hx) hbefore _ hs).bind ?_
    rintro t s1 ⟨h1, ht, hfits⟩
    rw [← hops] at h1
    refine .step rfl (.pure ⟨h1.note hx ht ?_ hfits, ht, mem_cons_self⟩)
    exact (h1.ready hs).allowed

theorem infers_value (hm : m.Regular clean) : Infers clean m R (Typing.value m) m.values.size :=
  infers_inferValue hm (Nat.le_succ _) le_rfl

end UnitCheck.Typing
