import UnitCheck.Proofs.Typing.Values

/-!
# Typing a module

The walk over a whole module: slots get their types, then the global lines and the items are gone
over. Since every value of a regular module is used once, this comes by each value, and by each once
(`gives_walk`).
-/

namespace UnitCheck.Typing

open Code List
open Run (Gives)

variable {clean : Prop} {m : Module} {R : TypeId → Prop} {s s' : State} {t : TypeId} {v : ValueId}
  {vs : List ValueId}

/-! ## Slots -/

/-- What is noted for a slot: its type, if it has one. -/
def State.Seeded (clean : Prop) (s : State) (l : LocalId) (x : Local) : Prop :=
  ∃ t, s.localTypes.lookup l = some t ∧ s.env.Has clean t ∧ (x.type.isValid = true → t = x.type)

theorem gives_seedLocals (hm : m.Regular clean) {L : List (Local × Nat)}
    (hL : ∀ x ∈ L, x.1.type.isValid = true → m.types.Closed clean x.1.type)
    (hnodup : (L.map Prod.snd).Nodup) (good : s.env.Good) (htypes : m.types.Extends s.env.types) :
    Gives (seedLocals m L) s fun _ s' => s.env.Moves clean s'.env ∧
      (∃ notes, s' = { s with env := s'.env, localTypes := notes }) ∧
      (∀ x ∈ L, s'.Seeded clean ⟨x.2⟩ x.1) ∧
      ∀ j, j ∉ L.map Prod.snd → s'.localTypes.lookup ⟨j⟩ = s.localTypes.lookup ⟨j⟩ := by
  induction L generalizing s with
  | nil => exact .pure ⟨.refl good, ⟨_, rfl⟩, nofun, fun _ _ => rfl⟩
  | cons x L ih =>
    obtain ⟨l, i⟩ := x
    obtain ⟨hl, hL⟩ := forall_mem_cons.1 hL
    obtain ⟨hi, hnodup⟩ := nodup_cons.1 hnodup
    have hrest (t : TypeId) (e : Env) (h1 : s.env.Moves clean e) (ht : e.Has clean t)
        (htype : l.type.isValid = true → t = l.type) :
        Gives (do noteLocal ⟨i⟩ t; seedLocals m L) { s with env := e } fun _ s' =>
          s.env.Moves clean s'.env ∧ (∃ notes, s' = { s with env := s'.env, localTypes := notes }) ∧
          (∀ x ∈ (l, i) :: L, s'.Seeded clean ⟨x.2⟩ x.1) ∧
          ∀ j, j ∉ i :: L.map Prod.snd → s'.localTypes.lookup ⟨j⟩ = s.localTypes.lookup ⟨j⟩ := by
      let s1 : State := { s with env := e, localTypes := (⟨i⟩, t) :: s.localTypes }
      refine .step rfl ((ih hL hnodup h1.good (htypes.trans h1.ext.types)).mono ?_)
      rintro _ s2 ⟨h2, ⟨notes, hnotes⟩, hseeded, hother⟩
      refine ⟨h1.trans h2, ⟨notes, hnotes⟩, forall_mem_cons.2 ⟨⟨t, ?_, ht.mono h2, htype⟩, hseeded⟩,
        ?_⟩
      · rw [hother i hi]
        exact lookup_cons_self
      · intro j hj
        obtain ⟨hne, hj⟩ := not_or.1 (mt mem_cons.2 hj)
        rw [hother j hj]
        have hne' : ((⟨j⟩ : LocalId) == ⟨i⟩) = false := by simpa using hne
        simp only [lookup_cons, hne']
    unfold seedLocals
    split
    next hvalid =>
      have hhas : s.env.Has clean l.type := .of_closed (hl hvalid) hm.types htypes
      exact .step rfl (hrest _ s.env (.refl good) hhas fun _ => rfl)
    next hvalid =>
      have hfresh := yields_fresh_has clean good (m.localSpan ⟨i⟩)
      exact .step rfl (hrest _ _ hfresh.1 hfresh.2 fun hvalid' => absurd hvalid' hvalid)

theorem mem_locals_iff {x : Local} {i : Nat} :
    (x, i) ∈ m.locals.toList.zipIdx.drop 1 ↔ m.local? ⟨i⟩ = some x := by
  rw [mem_iff_getElem?]
  simp only [List.getElem?_drop, List.getElem?_zipIdx, Option.map_eq_some_iff, Prod.mk.injEq,
    Array.getElem?_toList]
  constructor
  · rintro ⟨k, y, hy, rfl, rfl⟩
    rw [Module.local?, if_pos (by simp [Id.isValid])]
    simpa using hy
  · intro h
    unfold Module.local? at h
    split at h
    next hvalid =>
      obtain ⟨k, rfl⟩ : ∃ k, i = 1 + k := ⟨i - 1, by simp [Id.isValid] at hvalid; omega⟩
      exact ⟨k, x, h, rfl, by simp⟩
    next => cases h

theorem nodup_locals : ((m.locals.toList.zipIdx.drop 1).map Prod.snd).Nodup := by
  refine .sublist ((drop_sublist 1 _).map _) ?_
  rw [zipIdx_map_snd]
  exact nodup_range'

/-- Once all slots have their types, values can be typed. -/
theorem gives_seedLocals_ready (hm : m.Regular clean) :
    Gives (seedLocals m (m.locals.toList.zipIdx.drop 1)) ⟨.initial m.types, [], [], [], [], 0⟩
      fun _ s => (Env.initial m.types).Moves clean s.env ∧ s.valueTypes = [] ∧ s.result = 0 ∧
        s.Ready clean m fun _ => True := by
  have good := Env.good_initial hm.types
  have hclosed (x : Local × Nat) (hx : x ∈ m.locals.toList.zipIdx.drop 1) :=
    hm.locals (mem_locals_iff.1 hx)
  refine (gives_seedLocals hm hclosed nodup_locals good (.refl _)).mono ?_
  rintro _ s ⟨hmoves, ⟨notes, hnotes⟩, hseeded, -⟩
  refine ⟨hmoves, by rw [hnotes], by rw [hnotes], hmoves.good, hmoves.ext.types, fun {l x} hx => ?_,
    fun hr => ?_, trivial, fun y hy => ?_, fun y hy => ?_⟩
  · exact hseeded (x, l.index) (mem_locals_iff.2 hx)
  · rw [hnotes] at hr
    cases hr
  · rw [hnotes] at hy
    cases hy
  · rw [hnotes] at hy
    cases hy

/-! ## Global lines -/

theorem gives_inferGlobal (hm : m.Regular clean) {i : LineId} {x : Line} (hx : m.line? i = some x)
    (hn : ∀ w ∈ x.operands, w.index < m.values.size) (hs : s.Ready clean m R) :
    Gives (inferGlobal m i) s fun _ s' =>
      Visits clean m R s x.operands s' ∧ (s'.env.Calm clean → FitsLine s' s'.result x) := by
  have hline {s1 : State} (h1 : Visits clean m R s [] s1) :
      Gives (inferLine m (value m) i) s1 fun _ s' =>
        Visits clean m R s x.operands s' ∧ (s'.env.Calm clean → FitsLine s' s'.result x) :=
    (gives_inferLine hm (infers_value hm) hx hn (h1.ready hs)).mono fun _ s2 ⟨h2, hfits⟩ =>
      ⟨h1.trans h2, hfits⟩
  unfold inferGlobal
  rw [hx]
  cases x with
  | bind slot v =>
    dsimp only
    split
    next l hl =>
      split
      next =>
        have hcode : FaultCode.invalidContext ≠ .internalError := by decide
        have hreport := gives_solve m R (yields_report_fault clean hs.good hcode (by decide)
          (m.lineSpan i) ("global '" ++ l.name ++ "' cannot be 'mut'"))
        exact hreport.bind fun _ s1 ⟨h1, _⟩ => hline h1
      next => exact hline (.refl hs.good)
    next => exact hline (.refl hs.good)
  | _ => exact hline (.refl hs.good)

theorem gives_inferGlobals (hm : m.Regular clean) {L : List LineId}
    (hL : ∀ i ∈ L, (m.line? i).isSome = true) (hn : ∀ w ∈ m.lineOperands L, w.index < m.values.size)
    (hs : s.Ready clean m R) :
    Gives (inferGlobals m L) s fun _ s' => VisitsLines clean m R s L s' := by
  induction L generalizing s with
  | nil => exact .pure ⟨.refl hs.good, fun _ => nofun⟩
  | cons i L ih =>
    obtain ⟨hi, hL⟩ := forall_mem_cons.1 hL
    obtain ⟨x, hx⟩ := Option.isSome_iff_exists.1 hi
    rw [lineOperands_cons hx] at hn
    obtain ⟨hn, hrest⟩ := forall_mem_append.1 hn
    refine (gives_inferGlobal hm hx hn hs).bind fun _ s1 ⟨h1, hfits⟩ => ?_
    exact (ih hL hrest (h1.ready hs)).mono fun _ s2 h2 => .cons hx h1 hfits h2

/-! ## Functions -/

/-- What a function returns fits its result, and what its lines bind and assign fits. -/
structure FitsFunc (m : Module) (s : State) (f : Func) : Prop where
  lines : ∀ i, m.Encloses f.body i → ∀ x, m.line? i = some x → FitsLine s f.result x
  tail : ∀ b, m.block? f.body = some b → b.tail.isValid = true → s.Agrees f.result b.tail

theorem State.Later.fitsFunc {f : Func} (h : s.Later s') (hf : FitsFunc m s f) : FitsFunc m s' f :=
  ⟨fun i hi x hx => h.fitsLine (hf.lines i hi x hx), fun b hb hv => h.agrees (hf.tail b hb hv)⟩

theorem Visits.noteLocal {l : LocalId} (hs : s.Ready clean m R)
    (h : s.localTypes.lookup l = some t) :
    Visits clean m R s [] { s with localTypes := (l, t) :: s.localTypes } := by
  refine ⟨[], ⟨.refl hs.good, fun {l' t'} hl' => ?_, rfl, fun _ hy _ => .inl hy, nofun,
    ⟨[], rfl, nofun, nofun, fun _ => rfl⟩, fun _ => nofun⟩, .nil⟩
  rw [lookup_cons]
  split
  next heq =>
    rw [beq_iff_eq.1 heq, h] at hl'
    exact hl'
  next => exact hl'

theorem gives_seedParams {ps : List Code.Param}
    (hps : ∀ p ∈ ps, m.types.Closed clean p.type ∧ ∃ x, m.local? p.slot = some x ∧ x.type = p.type)
    (hm : m.Regular clean) (hs : s.Ready clean m R) :
    Gives (seedParams ps) s fun _ s' => Visits clean m R s [] s' := by
  induction ps generalizing s with
  | nil => exact .pure (.refl hs.good)
  | cons p ps ih =>
    obtain ⟨⟨hclosed, x, hx, htype⟩, hps⟩ := forall_mem_cons.1 hps
    obtain ⟨t, hlook, -, ht⟩ := hs.locals hx
    have hvalid : p.type.isValid = true := (Env.Has.of_closed hclosed hm.types hs.types).isValid
    rw [htype] at ht
    obtain rfl := ht hvalid
    have h1 : Visits clean m R s [] { s with localTypes := (p.slot, p.type) :: s.localTypes } :=
      .noteLocal hs hlook
    exact .step rfl ((ih hps (h1.ready hs)).mono fun _ s2 h2 => h1.step h2)

/-- What is gone over in a function is gone over, whatever the result was before. -/
theorem Visits.within {r : TypeId} (h : Visits clean m R { s with result := r } vs s') :
    Visits clean m R s vs { s' with result := s.result } := by
  obtain ⟨ks, hwalk, hmeets⟩ := h
  refine ⟨ks, ⟨hwalk.moves, hwalk.locals, rfl, hwalk.decls, hwalk.defined, hwalk.notes, ?_⟩, hmeets⟩
  intro hc k hk x hx
  obtain ⟨r', hr', hfits⟩ := hwalk.fits hc k hk x hx
  have hlater : s'.Later { s' with result := s.result } := ⟨.refl _, .refl _, id⟩
  exact ⟨r', hr', hlater.fitsValue hfits⟩

theorem gives_inferFunc (hm : m.Regular clean) {f : Func} (hf : m.ProperFunc clean f)
    (hn : ∀ w ∈ m.blockOperands f.body, w.index < m.values.size)
    (hs : s.Ready clean m fun _ => True) :
    Gives (inferFunc m f) s fun _ s' => Visits clean m (fun _ => True) s
      (m.blockOperands f.body) s' ∧ (s'.env.Calm clean → FitsFunc m s' f) := by
  unfold inferFunc
  split
  next hvalid =>
    obtain ⟨b, hb⟩ := Option.isSome_iff_exists.1 (hf.body hvalid)
    let s0 : State := { s with result := f.result }
    have hresult : s.env.Has clean f.result := .of_closed hf.result hm.types hs.types
    have hs0 : s0.Ready clean m (· = f.result) :=
      ⟨hs.good, hs.types, hs.locals, fun _ => hresult, rfl, hs.values, hs.decls⟩
    refine (gives_seedParams hf.params hm hs0).bind fun _ s1 h1 => ?_
    have hs1 := h1.ready hs0
    refine (gives_inferBlock hm (infers_value hm) hb hn hs1).bind ?_
    rintro ⟨t, diverges⟩ s2 ⟨h2, ht, hnote, hlines⟩
    have hs2 := h2.ready hs1
    have hresult2 : s2.env.Has clean f.result := .of_closed hf.result hm.types hs2.types
    refine .need_bind hb ?_
    -- whatever is made of the value of the body, the lines of the body fit
    have hdone {s3 : State} (h3 : Visits clean m (· = f.result) s2 [] s3)
        (htail : s3.env.Calm clean → b.tail.isValid = true → s3.Agrees f.result b.tail) :
        Gives (modify fun s' : State => { s' with result := s.result }) s3 fun _ s' =>
          Visits clean m (fun _ => True) s (m.blockOperands f.body) s' ∧
            (s'.env.Calm clean → FitsFunc m s' f) := by
      have h : Visits clean m (· = f.result) s0 (m.blockOperands f.body) s3 := (h1.trans h2).step h3
      refine ⟨(), _, rfl, (h.mono fun _ _ => trivial).within, fun hc => ?_⟩
      have hlater : s3.Later { s3 with result := s.result } := ⟨.refl _, .refl _, id⟩
      refine hlater.fitsFunc ⟨fun i hi x hx => ?_, fun b' hb' hv => ?_⟩
      · obtain hi | ⟨v, hv, w, y, hreach, hy, b', hb', hi⟩ := hi
        · have hfits := h3.later.fitsLines (hlines (h3.calm hc)) i hi x hx
          rwa [h2.result, h1.result] at hfits
        · obtain ⟨r, rfl, hfits⟩ := h.fits_of_reaches hc hv hreach hy
          exact hfits.lines b' hb' i hi x hx
      · obtain rfl := Option.some_inj.1 (hb.symm.trans hb')
        exact htail hc hv
    split
    next hv =>
      refine (gives_unifyValue hs2 hresult2 ht _ _).bind fun _ s3 ⟨h3, hagree⟩ => ?_
      exact hdone h3 fun hc _ => ⟨t, h3.later.values (hnote hv), hagree hc⟩
    next hv =>
      have habsent (s3 : State) (hv' : b.tail.isValid = true) : s3.Agrees f.result b.tail :=
        absurd hv' hv
      split
      next =>
        obtain ⟨span, hspan⟩ := (hm.blocks hb).span
        refine .need_bind hspan ?_
        have hunify := gives_solve m (· = f.result) (yields_unify_agree hs2.good hresult2 ht span)
        refine (Gives.discard (hunify.mono fun _ _ h => h.1)).bind fun _ s3 h3 => ?_
        exact hdone h3 fun _ => habsent s3
      next => exact hdone (.refl hs2.good) fun _ => habsent s2
  next hvalid =>
    have hnone : m.block? f.body = none := if_neg hvalid
    have hops : m.blockOperands f.body = [] := by
      rw [Module.blockOperands, hnone]
      rfl
    rw [hops]
    refine .pure ⟨.refl hs.good, fun _ => ⟨fun i hi => ?_, fun b hb => ?_⟩⟩
    · obtain hi | ⟨v, hv, -⟩ := hi
      · rw [Module.linesOf, hnone] at hi
        cases hi
      · rw [hops] at hv
        cases hv
    · rw [hnone] at hb
      cases hb

/-! ## Items -/

theorem Visits.noteDecl {d : DeclId} (hs : s.Ready clean m R)
    (h : t.isValid = true → s.env.Has clean t) :
    Visits clean m R s [] { s with declTypes := (d, t) :: s.declTypes } := by
  refine ⟨[], ⟨.refl hs.good, id, rfl, fun y hy hvalid => ?_, nofun,
    ⟨[], rfl, nofun, nofun, fun _ => rfl⟩, fun _ => nofun⟩, .nil⟩
  obtain rfl | hy := mem_cons.1 hy
  · exact .inr (h hvalid)
  · exact .inl hy

theorem gives_noteMembers {keepsMissing : Bool} {xs : List Code.Member} (hm : m.Regular clean)
    (hxs : ∀ x ∈ xs, x.type.isValid = true → m.types.Closed clean x.type) (hs : s.Ready clean m R) :
    Gives (noteMembers keepsMissing xs) s fun _ s' => Visits clean m R s [] s' := by
  induction xs generalizing s with
  | nil => exact .pure (.refl hs.good)
  | cons x xs ih =>
    obtain ⟨hx, hxs⟩ := forall_mem_cons.1 hxs
    unfold noteMembers
    split
    next =>
      have h1 : Visits clean m R s [] { s with declTypes := (x.decl, x.type) :: s.declTypes } :=
        .noteDecl hs fun hvalid => .of_closed (hx hvalid) hm.types hs.types
      exact .step rfl ((ih hxs (h1.ready hs)).mono fun _ s2 h2 => h1.step h2)
    next => exact ih hxs hs

theorem gives_inferItem (hm : m.Regular clean) {i : Item} (hi : m.ProperItem clean i)
    (hn : ∀ w ∈ m.bodyOperands i, w.index < m.values.size) (hs : s.Ready clean m fun _ => True) :
    Gives (inferItem m i) s fun _ s' => Visits clean m (fun _ => True) s (m.bodyOperands i) s' ∧
      (s'.env.Calm clean → ∀ f, i.func = some f → FitsFunc m s' f) := by
  by_cases hkind : i.kind = .func
  · unfold inferItem
    obtain ⟨f, hf⟩ := Option.isSome_iff_exists.1 (hi.kind_func.1 hkind)
    have hproper := hi.func f hf
    have hops : m.bodyOperands i = m.blockOperands f.body := by
      rw [Module.bodyOperands, hf]
      rfl
    rw [hkind]
    rw [hops] at hn ⊢
    refine .need_bind hf ?_
    refine (gives_inferFunc hm hproper hn hs).bind fun _ s1 ⟨h1, hfits⟩ => ?_
    have hs1 := h1.ready hs
    have h2 := Visits.noteDecl (d := i.decl) hs1 fun _ =>
      .of_closed hproper.closed_type hm.types hs1.types
    refine ⟨(), _, rfl, h1.step h2, fun hc f' hf' => ?_⟩
    obtain rfl := Option.some_inj.1 (hf.symm.trans hf')
    exact h2.later.fitsFunc (hfits hc)
  · have hnone : i.func = none := by simpa using mt hi.kind_func.2 hkind
    have hops : m.bodyOperands i = [] := by
      rw [Module.bodyOperands, hnone]
      rfl
    rw [hops, hnone]
    have hgoal : Gives (inferItem m i) s fun _ s' => Visits clean m (fun _ => True) s [] s' := by
      unfold inferItem
      split
      next h => exact absurd h hkind
      next h =>
        obtain ⟨t, ht⟩ := Option.isSome_iff_exists.1 (hi.kind_type h)
        have hproper := hi.type t ht
        refine .need_bind ht ?_
        have h1 := Visits.noteDecl (d := i.decl) hs fun _ =>
          .of_closed hproper.type hm.types hs.types
        refine .step rfl
          ((gives_noteMembers hm (fun x hx _ => hproper.fields x hx) (h1.ready hs)).bind ?_)
        intro _ s2 h2
        refine (gives_noteMembers hm hproper.variants (h2.ready (h1.ready hs))).mono
          fun _ s3 h3 => ?_
        exact (h1.step h2).step h3
      next => exact .pure (.refl hs.good)
    exact hgoal.mono fun _ s1 h1 => ⟨h1, fun _ => nofun⟩

theorem gives_inferItems (hm : m.Regular clean) {is : List (Option Item)}
    (his : ∀ o ∈ is, ∃ i, o = some i ∧ m.ProperItem clean i)
    (hn : ∀ w ∈ is.flatMap (fun x => x.elim [] m.bodyOperands), w.index < m.values.size)
    (hs : s.Ready clean m fun _ => True) : Gives (inferItems m is) s fun _ s' =>
      Visits clean m (fun _ => True) s (is.flatMap fun x => x.elim [] m.bodyOperands) s' ∧
      (s'.env.Calm clean → ∀ i f, some i ∈ is → i.func = some f → FitsFunc m s' f) := by
  induction is generalizing s with
  | nil => exact .pure ⟨.refl hs.good, fun _ => nofun⟩
  | cons o is ih =>
    obtain ⟨⟨i, rfl, hi⟩, hothers⟩ := forall_mem_cons.1 his
    obtain ⟨hn, hrest⟩ := forall_mem_append.1 hn
    refine .need_bind rfl ?_
    refine (gives_inferItem hm hi hn hs).bind fun _ s1 ⟨h1, hfits⟩ => ?_
    refine (ih hothers hrest (h1.ready hs)).mono fun _ s2 ⟨h2, hfits'⟩ => ⟨h1.trans h2, ?_⟩
    intro hc j f hj hf
    obtain hj | hj := mem_cons.1 hj
    · cases hj
      exact h2.later.fitsFunc (hfits (h2.calm hc) f hf)
    · exact hfits' hc j f hj hf

/-! ## The walk over a module -/

/-- Every value of a module has been gone over, and so have its global lines and its functions. -/
structure Walked (clean : Prop) (m : Module) (s : State) : Prop where
  ready : s.Ready clean m fun _ => True
  once : s.env.Once
  noted : ∀ v, v.isValid = true → v.index < m.values.size → ∃ t, (v, t) ∈ s.valueTypes
  nodup : s.env.Calm clean → (s.valueTypes.map Prod.fst).Nodup
  defined : s.env.Calm clean → ∀ y ∈ s.valueTypes, y.1.isValid = true ∧ y.1.index < m.values.size
  values : s.env.Calm clean → ∀ v x, m.value? v = some x → ∃ r, FitsValue m s r x
  globals : s.env.Calm clean → FitsLines m s 0 m.globals
  funcs : s.env.Calm clean → ∀ d i f, m.item? d = some i → i.func = some f → FitsFunc m s f

theorem lt_size_of_value? {x : Value} (h : m.value? v = some x) :
    v.isValid = true ∧ v.index < m.values.size := by
  unfold Module.value? at h
  split at h
  next hvalid => exact ⟨hvalid, (Array.getElem?_eq_some_iff.1 h).1⟩
  next => cases h

theorem mem_sortedItems_iff {o : Option Item} :
    o ∈ m.sortedItems ↔ ∃ d ∈ m.itemOrder, m.item? d = o := by
  rw [Module.sortedItems, mem_map]
  exact exists_congr fun d => and_congr_left' mem_mergeSort

theorem gives_walk (hm : m.Regular clean) :
    Gives (do
      seedLocals m (m.locals.toList.zipIdx.drop 1)
      inferGlobals m m.globals
      inferItems m m.sortedItems) ⟨.initial m.types, [], [], [], [], 0⟩ fun _ s =>
        Walked clean m s := by
  obtain ⟨hglobals, hitems⟩ := forall_mem_append.1 hm.roots
  refine (gives_seedLocals_ready hm).bind fun _ s1 ⟨hmoves, hvalues, hresult, hs1⟩ => ?_
  refine (gives_inferGlobals hm hm.globals hglobals hs1).bind fun _ s2 ⟨h2, hlines⟩ => ?_
  have his (o : Option Item) (ho : o ∈ m.sortedItems) : ∃ i, o = some i ∧ m.ProperItem clean i := by
    obtain ⟨d, hd, rfl⟩ := mem_sortedItems_iff.1 ho
    obtain ⟨i, hi⟩ := Option.isSome_iff_exists.1 ((hm.order d).1 hd)
    exact ⟨i, hi, hm.items hi⟩
  refine (gives_inferItems hm his hitems (h2.ready hs1)).mono fun _ s3 ⟨h3, hfuncs⟩ => ?_
  have h : Visits clean m (fun _ => True) s1 m.roots s3 := h2.trans h3
  obtain ⟨ks, hwalk, hmeets⟩ := h
  have hks (k : ValueId) (hk : k ∈ ks) : k.isValid = true ∧ k.index < m.values.size := by
    obtain ⟨x, hx⟩ := Option.isSome_iff_exists.1 (hwalk.defined k hk)
    exact lt_size_of_value? hx
  have hmem (v : ValueId) (hv : v.isValid = true) (hlt : v.index < m.values.size) : v ∈ ks := by
    have hcount := hmeets.count_eq_one hm.once hm.backward hv hlt
    exact count_pos_iff.1 (by omega)
  obtain ⟨new, hnew, -, hkeys, hcalm⟩ := hwalk.notes
  rw [hvalues, append_nil] at hnew
  refine ⟨h3.ready (h2.ready hs1), ?_, fun v hv hlt => ?_, fun hc => ?_, fun hc y hy => ?_,
    fun hc v x hx => ?_, fun hc => ?_, fun hc d i f hi hf => ?_⟩
  · exact hwalk.moves.ext.once (hmoves.ext.once ⟨nodup_nil, nofun, rfl⟩)
  · rw [hnew]
    exact hkeys v (hmem v hv hlt)
  · rw [hnew, hcalm hc]
    exact hmeets.nodup hm.once hm.backward hks
  · rw [hnew] at hy
    exact hks y.1 (hcalm hc ▸ mem_map_of_mem hy)
  · obtain ⟨hv, hlt⟩ := lt_size_of_value? hx
    obtain ⟨r, -, hfits⟩ := hwalk.fits hc v (hmem v hv hlt) x hx
    exact ⟨r, hfits⟩
  · rw [← hresult, ← h2.result]
    exact h3.later.fitsLines (hlines (h3.calm hc))
  · refine hfuncs hc i f (mem_sortedItems_iff.2 ⟨d, (hm.order d).2 ?_, hi⟩) hf
    rw [hi]
    rfl

end UnitCheck.Typing
