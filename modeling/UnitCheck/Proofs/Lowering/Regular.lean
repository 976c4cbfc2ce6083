import UnitCheck.Proofs.Lowering.Fragment

/-!
# Lowered code is regular

What lowering makes of a complete program is a regular module (`Front.regular`), whatever faults
there are; if neither resolution nor lowering found a fault, it is clean. The rules of lowering are
read off for it, by induction: each of them makes a fragment, in which everything is proper and used
once. -/

namespace UnitCheck.Lowering

open Code List Syntax
open Resolution (Site Frame declAt outline outlineExpr outlineExprs outlineArms outlineStmt
  outlineStmts
  outlineEach usesExpr usesExprs usesArms usesStmt usesStmts usesType usesBody usesCallee)

variable {clean : Prop} {c : Context} {t : State} {all : List Site}

/-! ## What is given of a program -/

section

variable (clean c all)

def IsFunc (d : DeclId) : Prop := ∃ r, Site.func r ∈ all ∧ declAt c.tree (.func r) = some d

/-- A part of a program is complete, its sites are declared, and its names are known if it is
clean. -/
structure Given (complete : Bool) (sites : List Site)
    (us : List Frame → List Site → List Resolution.Use) : Prop where
  complete : complete = true
  declared : Declared c.tree sites
  known : clean → ∃ env done, Knows c all (us env done)

abbrev GivenExpr (e : Expr) : Prop :=
  Given clean c all (isCompleteExpr e) (outlineExpr e).sites (usesExpr · · e)

abbrev GivenOperand (e : Expr) : Prop :=
  Given clean c all (e.isMissing || isCompleteExpr e) (outlineExpr e).sites (usesExpr · · e)

abbrev GivenBody (e : Expr) : Prop :=
  Given clean c all (e.isMissing || isCompleteExpr e) (outlineExpr e).sites (usesBody · · e)

abbrev GivenExprs (es : List Expr) : Prop :=
  Given clean c all (areCompleteExprs es) (outlineExprs es).sites (usesExprs · · es)

abbrev GivenArms (arms : List Arm) : Prop :=
  Given clean c all (areCompleteArms arms) (outlineArms arms).sites (usesArms · · arms)

abbrev GivenStmt (s : Stmt) : Prop :=
  Given clean c all (isCompleteStmt s) (outlineStmt s).sites (usesStmt · · s)

abbrev GivenStmts (ss : List Stmt) : Prop :=
  Given clean c all (areCompleteStmts ss) (outlineStmts ss).sites (usesStmts · · ss)

abbrev Made (t : State) (sites : List Site) (p q : Pos) :
    List LineId → List ValueId → List BlockId → Prop :=
  Fragment clean (IsFunc c all) c t.module sites p q

end

namespace Given

variable {b b' : Bool} {xs ys : List Site} {us us' : List Frame → List Site → List Resolution.Use}

theorem knows (h : Given clean c all b xs us)
    (hus : ∀ env done, ∃ env' done', us' env' done' ⊆ us env done) (hclean : clean) :
    ∃ env done, Knows c all (us' env done) := by
  obtain ⟨env, done, hknown⟩ := h.known hclean
  obtain ⟨env', done', hsub⟩ := hus env done
  exact ⟨env', done', hknown.mono hsub⟩

theorem part (h : Given clean c all b xs us) (hb : b' = true) (hsites : ys ⊆ xs)
    (hus : ∀ env done, ∃ env' done', us' env' done' ⊆ us env done) : Given clean c all b' ys us' :=
  ⟨hb, fun x hx => h.declared x (hsites hx), h.knows hus⟩

theorem left (h : Given clean c all b (xs ++ ys) fun env done => us env done ++ us' env done)
    (hb : b' = true) : Given clean c all b' xs us :=
  h.part hb (subset_append_left ..) fun env done => ⟨env, done, subset_append_left ..⟩

theorem right {after : List Frame → List Site → List Site}
    (h : Given clean c all b (xs ++ ys) fun env done => us env done ++ us' env (after env done))
    (hb : b' = true) : Given clean c all b' ys us' :=
  h.part hb (subset_append_right ..) fun env _ => ⟨env, _, subset_append_right ..⟩

theorem same (h : Given clean c all b xs us) (hb : b' = true) : Given clean c all b' xs us :=
  ⟨hb, h.declared, h.known⟩

theorem both (h : Given clean c all (b && b') xs us) : b = true ∧ b' = true :=
  Bool.and_eq_true_iff.1 h.complete

end Given

/-! ## Parts without bodies -/

variable {p q : Pos} {span : Span} {n : ExprNode} {d : DeclId} {ds : List DeclId} {r : PayloadId}
  {i : Nat} {m : Module} {name : NameId} {e : Expr} {L : List LineId}

theorem HasLocal.isSome_local? {x : Local} (h : HasLocal t p x span) :
    (t.module.local? p.slot).isSome = true := by
  rw [h.local?]
  rfl

theorem State.HasSlot.isSome_local? {l : LocalId} (h : t.HasSlot l d) :
    (t.module.local? l).isSome = true := by
  obtain ⟨hvalid, x, hx, -⟩ := h
  rw [Module.local?, if_pos hvalid, hx]
  rfl

theorem Names.proper {x : Value} (h : Names c t n name x) (hfaults : clean → t.faults = #[])
    (hknown : clean → Resolution.Mention.Known c all (.value n)) :
    t.module.ProperValue clean (IsFunc c all) x := by
  cases h with
  | slot hd hkind hslot => exact hslot.isSome_local?
  | func hd hkind =>
    intro hclean
    obtain ⟨x, hx, hdecl, d', hd', hsame⟩ := hknown hclean
    cases hd.symm.trans hd'
    rw [hkind] at hsame
    cases x with
    | func r => exact ⟨r, hx, hdecl⟩
    | _ => cases hsame
  | unknown hnone =>
    intro hclean
    obtain ⟨_, _, _, d, hd, _⟩ := hknown hclean
    cases hnone.symm.trans hd
  | unfit _ _ _ _ hf | lost _ _ hf =>
    intro hclean
    rw [hfaults hclean] at hf
    cases hf

theorem not_clean {f : Fault} (hfaults : clean → t.faults = #[]) (hf : f ∈ t.faults.toList) :
    ¬ clean :=
  fun hclean => by
    rw [hfaults hclean] at hf
    cases hf

theorem SpellsResult.closed {T : TypeTable} {x : TypeExpr} {i : TypeId} (wf : T.WellFormed)
    (h : SpellsResult c T x i) (hx : (x.isMissing || x.isComplete) = true)
    (hknown : clean → ∃ env done, Knows c all (usesType env done x)) : T.Closed clean i := by
  unfold SpellsResult at h
  split at h
  next hvalid =>
    rcases Bool.or_eq_true_iff.1 hx with hx | hx
    · cases x with
      | absent =>
        simp only [TypeExpr.isMissing, Bool.not_eq_true'] at hx
        rw [show (TypeExpr.absent _).id.isValid = _ from hx] at hvalid
        cases hvalid
      | _ => cases hx
    · exact h.closed hx hknown
  next =>
    rw [h]
    exact closed_of_atom (view_builtinAtom wf (by decide) (by decide)) (by decide)
      fun _ => by decide

theorem varDecl_of_declAt {n : StmtNode} (h : declAt c.tree (.var n.record) = some d) :
    varDecl c n = d :=
  congrArg (·.getD 0) h

theorem LowersMembers.forall_type {fs : List MemberForm} {xs : List Code.Member}
    {P : TypeId → Prop} (h : LowersMembers c t ds fs xs)
    (hP : ∀ f ∈ fs, ∀ i, Spells c t.module.types f.type i → P i) : ∀ x ∈ xs, P x.type := by
  induction h with
  | nil => nofun
  | cons hspell _ ih =>
    obtain ⟨hf, hfs⟩ := forall_mem_cons.1 hP
    exact forall_mem_cons.2 ⟨hf _ hspell, ih hfs⟩

variable (all) in
/-- The parameters of a function become slots with solid types, which belong to their sites. `ds`
are the declarations from position `i` on. -/
theorem LowersParams.proper {fs : List ParamForm}
    {xs : List Code.Param} (h : LowersParams c t ds fs p q xs)
    (hP : ∀ f ∈ fs, ∀ i, Spells c t.module.types f.type i → t.module.types.Closed clean i)
    (hds : ∀ k, declAt c.tree (.param r (i + k)) = ds[k]?)
    (hd : Declared c.tree (outlineEach (.param r) i (fs.map Resolution.labelOfParam)).sites) :
    Made clean c all t (outlineEach (.param r) i (fs.map Resolution.labelOfParam)).sites
      p q [] [] [] ∧ ∀ x ∈ xs, t.module.types.Closed clean x.type ∧
        ∃ y, t.module.local? x.slot = some y ∧ y.type = x.type := by
  induction h generalizing i with
  | nil => exact ⟨.nil _, nofun⟩
  | @cons ds f fs p q type xs hspell hlocal _ ih =>
    obtain ⟨hf, hfs⟩ := forall_mem_cons.1 hP
    have hclosed := hf _ hspell
    obtain ⟨d, hdecl, -⟩ := hd (.param r i) mem_cons_self
    have hhead : ds.headD 0 = d := by
      have := (hds 0).symm.trans hdecl
      cases ds with
      | nil => cases this
      | cons d' ds => exact Option.some.inj this
    obtain ⟨hfragment, hxs⟩ := ih hfs (i := i + 1) (fun k => by
      rw [List.getElem?_drop, ← hds (1 + k), Nat.add_assoc]) fun x hx => hd x (mem_cons_of_mem _ hx)
    have hslot : Made clean c all t [.param r i] p p.addLocal [] [] [] :=
      (Fragment.nil p).slot hlocal (fun _ => hclosed) _
        (.one (hdecl.trans (congrArg some hhead.symm))) nofun
    refine ⟨hslot.append hfragment, forall_mem_cons.2 ⟨⟨hclosed, ?_⟩, hxs⟩⟩
    exact ⟨_, hlocal.local?, rfl⟩

/-- Members are no functions: one that stands among or behind them stands behind them. -/
theorem func_mem_of_mem_outlineEach {site : Nat → Site} {as : List (NameId × Span)}
    {rest : List Site} (h : .func r ∈ (outlineEach site i as).sites ++ rest)
    (hsite : ∀ k, site k ≠ .func r) : .func r ∈ rest := by
  induction as generalizing i with
  | nil => exact h
  | cons a as ih =>
    rcases mem_cons.1 h with h | h
    · exact absurd h.symm (hsite i)
    · exact ih h

theorem exists_usesBody_eq (e : Expr) (env : List Frame) (done : List Site) :
    ∃ env' done', usesBody env' done' e ⊆ usesExpr env done e := by
  cases e with
  | block n stmts => exact ⟨_, done, .refl _⟩
  | _ => exact ⟨env, done, .refl _⟩

theorem Given.body {b : Bool} {xs : List Site}
    (h : Given clean c all b xs (usesExpr · · e)) : Given clean c all b xs (usesBody · · e) :=
  h.part h.complete (.refl _) (exists_usesBody_eq e)

theorem knows_of_usesCallee {env : List Frame} {done : List Site} {call : PayloadId}
    (h : Knows c all (usesCallee env done call e)) : Knows c all (usesExpr env done e) := by
  cases e with
  | ident n name =>
    intro u hu
    rw [mem_singleton.1 hu]
    exact h ⟨.callee call n, name, env, done⟩ (mem_singleton_self _)
  | _ => exact h

theorem usesBody_of_ne_block (h : ∀ n stmts, e ≠ .block n stmts) (env : List Frame)
    (done : List Site) : usesBody env done e = usesExpr env done e := by
  cases e with
  | block n stmts => exact absurd rfl (h n stmts)
  | _ => rfl

/-! ## Judgements -/

/-- What a judgement says of the fragment that is made. -/
def Judgement.Proper (clean : Prop) (c : Context) (t : State) (all : List Site) : Judgement → Prop
  | .value e p q L v =>
    GivenOperand clean c all e → Made clean c all t (outlineExpr e).sites p q L [v] [] ∧
      (isCompleteExpr e = true → v.isValid = true)
  | .place e p q L x | .placed e p q L x => GivenExpr clean c all e →
    Made clean c all t (outlineExpr e).sites p q L x.operands [] ∧ t.module.ProperPlace x
  | .body e p q b =>
    GivenBody clean c all e → Made clean c all t (outlineExpr e).sites p q [] [] [b] ∧
      (isCompleteExpr e = true ∨ b.isValid = true → (t.module.block? b).isSome = true)
  | .args es p q L vs =>
    GivenExprs clean c all es → Made clean c all t (outlineExprs es).sites p q L vs [] ∧
      ∀ v ∈ vs, v.isValid = true
  | .elems l _ es p q L => (t.module.local? l).isSome = true →
    GivenExprs clean c all es → Made clean c all t (outlineExprs es).sites p q L [] []
  | .arms chain true rest p q L chain' => q = p ∧ L = [] ∧ chain' = chain ∧ (clean → rest = [])
  | .arms chain false rest p q L chain' => chain.isOpen = true →
    GivenArms clean c all rest → ∃ branches, chain'.branches = chain.branches ++ branches ∧
      Made clean c all t (outlineArms rest).sites p q L
        (branches.map Prod.fst) (branches.map Prod.snd) ∧
      ∀ x ∈ branches, (t.module.block? x.2).isSome = true
  | .stmts ss p q L tail =>
    GivenStmts clean c all ss → Made clean c all t (outlineStmts ss).sites p q L [tail] []
  | .stmt s p q L => GivenStmt clean c all s → Made clean c all t (outlineStmt s).sites p q L [] []
  | .func _ n name params result e p q => ∀ nameSpan modifier,
    GivenStmt clean c all (.func n name nameSpan params result e modifier) →
    Made clean c all t
      (outlineStmt (.func n name nameSpan params result e modifier)).sites p q [] [] []
  | .methods _ ss p q =>
    GivenStmts clean c all ss → Made clean c all t (outlineStmts ss).sites p q [] [] []

/-! ### Single forms

The rules that take several steps. Where a rule has premises on other judgements, what they say of
their fragments is given. -/

section Forms

variable {n : ExprNode} {p p1 p2 q : Pos} {L L' : List LineId} {v : ValueId} {b : BlockId}

theorem proper_array {elems : List Expr} {elemType : TypeExpr} {elem type : TypeId} {name : Text}
    (hspell : Spells c t.module.types elemType elem)
    (htype : if elem.isValid then
        t.module.types.view type = .wrap (.stack (UInt32.ofNat elems.length)) elem
      else type = 0)
    (hlocal : HasLocal t p ⟨name, 0, type, .mutable⟩ n.span)
    (halloc : HasValue t p (.stackArray elem (UInt32.ofNat elems.length)) n.span)
    (hline : HasLine t p (.bind p.slot p.value) n.span true)
    (hv : HasValue t q (.load (.slot p.slot)) n.span)
    (ih : (Judgement.elems p.slot 0 elems p.addLocal.addValue.addLine q L).Proper clean c t all) :
    (Judgement.value (.array n elems elemType) p q.addValue (p.line :: L) q.value).Proper clean c t
      all := by
  intro hg
  have hc := Bool.and_eq_true_iff.1 hg.both.1
  have helem : elem.isValid = true → t.module.types.Closed clean elem :=
    hspell.closed_of_isValid hc.2 (hg.knows fun env done => ⟨env, done, subset_append_left ..⟩)
  have hclosed : type.isValid = true → t.module.types.Closed clean type := by
    intro hvalid
    split at htype
    next he => exact closed_of_wrap htype (helem he)
    next =>
      rw [htype] at hvalid
      cases hvalid
  have hstart : Made clean c all t [] p p.addLocal.addValue.addLine [p.line] [] [] :=
    (((Fragment.nil p).temp hlocal hclosed rfl).value halloc helem .nil .nil).line
      hline hlocal.isSome_local? (.refl _)
  have helems := ih hlocal.isSome_local? (hg.part hc.1 (.refl _)
    fun env done => ⟨env, done, subset_append_right ..⟩)
  exact ⟨(hstart.append helems).value hv hlocal.isSome_local? .nil .nil, fun _ => rfl⟩

variable {cond body : Expr} {arms : List Arm} {chain chain' : Chain} {span : Span}

/-- What is given of a condition with its body and the arms behind them is given of each. -/
theorem Given.branch {x : Bool} (h : Given clean c all x
      ((outlineExpr cond).sites ++ ((outlineExpr body).sites ++ (outlineArms arms).sites))
      fun env done => usesExpr env done cond ++
      (usesExpr env (done ++ (outlineExpr cond).completed) body ++
        usesArms env (done ++ (outlineExpr cond).completed ++ (outlineExpr body).completed) arms)) :
    (isCompleteExpr cond = true → GivenOperand clean c all cond) ∧
      (isCompleteExpr body = true → GivenBody clean c all body) ∧
      (areCompleteArms arms = true → GivenArms clean c all arms) := by
  have hrest : Given clean c all x ((outlineExpr body).sites ++ (outlineArms arms).sites)
      fun env done => usesExpr env done body ++
        usesArms env (done ++ (outlineExpr body).completed) arms :=
    h.right h.complete
  refine ⟨fun hcond => ?_, fun hbody => ?_, fun harms => ?_⟩
  · exact h.left (orComplete hcond)
  · exact (hrest.left (orComplete hbody)).body
  · exact hrest.right harms

theorem proper_ifElse (hv : HasValue t q (.ifElse (some chain)) n.span)
    (ihcond : (Judgement.value cond p p1 L v).Proper clean c t all)
    (ihbody : (Judgement.body body p1 p2 b).Proper clean c t all)
    (iharms : (Judgement.arms (.last v b) false arms p2 q L' chain).Proper clean c t all) :
    (Judgement.value (.ifElse n cond body arms) p q.addValue (L ++ L') q.value).Proper clean c t
      all := by
  intro hg
  obtain ⟨hc, harms⟩ := hg.both
  obtain ⟨hcond, hbody⟩ := Bool.and_eq_true_iff.1 hc
  obtain ⟨hgcond, hgbody, hgarms⟩ := Given.branch hg
  obtain ⟨h1, -⟩ := ihcond (hgcond hcond)
  obtain ⟨h2, hblock⟩ := ihbody (hgbody hbody)
  obtain ⟨branches, hbranches, h3, hblocks⟩ := iharms rfl (hgarms harms)
  have hall : ∀ x ∈ chain.branches, (t.module.block? x.2).isSome = true := by
    rw [hbranches]
    exact forall_mem_cons.2 ⟨hblock (.inl hbody), hblocks⟩
  exact ⟨(h1.append (h2.append h3)).value hv ⟨_, rfl, hall⟩
    (.of_eq (congrArg (map Prod.fst) hbranches))
    (.of_eq (congrArg (map Prod.snd) hbranches)), fun _ => rfl⟩

/-- A plain `else`. What stands behind it is reported, so clean code has nothing there. -/
theorem proper_plainArm (ihbody : (Judgement.body body p p1 b).Proper clean c t all)
    (iharms : (Judgement.arms (chain.close b) true arms p1 q L chain').Proper clean c t all) :
    (Judgement.arms chain false (.mk .plain cond body span :: arms) p q L chain').Proper clean c t
      all := by
  intro hopen hg
  obtain ⟨rfl, rfl, rfl, hnil⟩ := iharms
  obtain ⟨⟨hcond, hbody⟩, -⟩ : (cond.isMissing = true ∧ isCompleteExpr body = true) ∧
      areCompleteArms arms = true := by
    simpa [areCompleteArms, show ArmKind.plain ≠ .elseIf by decide] using hg.complete
  have hnone : (outlineExpr cond).sites = [] := by
    cases cond with
    | absent => rfl
    | _ => cases hcond
  obtain ⟨-, hgbody, -⟩ := Given.branch hg
  obtain ⟨h, hblock⟩ := ihbody (hgbody hbody)
  refine ⟨[(0, b)], chain.branches_close b hopen, ?_,
    forall_mem_cons.2 ⟨hblock (.inl hbody), nofun⟩⟩
  refine ((Fragment.absent _).append h).widen ?_ fun hclean r hr => ?_
  · exact ((nil_sublist _).append (sublist_append_left ..)).subperm
  · rw [hnil hclean] at hr
    have hr : .func r ∈ (outlineExpr cond).sites ++ ((outlineExpr body).sites ++ []) := hr
    rwa [hnone, append_nil] at hr

theorem proper_elseIfArm (ihcond : (Judgement.value cond p p1 L v).Proper clean c t all)
    (ihbody : (Judgement.body body p1 p2 b).Proper clean c t all)
    (iharms : (Judgement.arms (chain.snoc v b) false arms p2 q L' chain').Proper clean c t all) :
    (Judgement.arms chain false (.mk .elseIf cond body span :: arms) p q (L ++ L') chain').Proper
      clean c t all := by
  intro hopen hg
  obtain ⟨⟨hcond, hbody⟩, harms⟩ : (isCompleteExpr cond = true ∧ isCompleteExpr body = true) ∧
      areCompleteArms arms = true := by
    simpa [areCompleteArms, show ArmKind.elseIf ≠ .plain by decide] using hg.complete
  obtain ⟨hgcond, hgbody, hgarms⟩ := Given.branch hg
  obtain ⟨h1, -⟩ := ihcond (hgcond hcond)
  obtain ⟨h2, hblock⟩ := ihbody (hgbody hbody)
  obtain ⟨branches, hbranches, h3, hblocks⟩ := iharms (chain.isOpen_snoc v b hopen) (hgarms harms)
  refine ⟨(v, b) :: branches, ?_, h1.append (h2.append h3),
    forall_mem_cons.2 ⟨hblock (.inl hbody), hblocks⟩⟩
  rw [hbranches, chain.branches_snoc v b hopen, append_assoc]
  rfl

end Forms

section Declarations

variable {n : StmtNode} {name : NameId} {nameSpan : Span} {modifier : Modifier} {p p1 q : Pos}
  {L : List LineId} {v : ValueId} {i : TypeId}

theorem proper_bind {type : TypeExpr} {value : Expr} {x : Text}
    (hspell : Spells c t.module.types type i)
    (hlocal : HasLocal t q ⟨x, varDecl c n, i, modifier⟩ nameSpan)
    (hline : HasLine t q (.bind q.slot v) n.span false)
    (ih : (Judgement.value value p q L v).Proper clean c t all)
    (hg : GivenStmt clean c all (.var n name nameSpan type value modifier)) :
    Made clean c all t (outlineExpr value).sites p q L [v] [] ∧
      Made clean c all t (outlineStmt (.var n name nameSpan type value modifier)).sites
        p q.addLocal.addLine (L ++ [q.line]) [] [] := by
  obtain ⟨htype, hvalue⟩ : (type.isMissing || type.isComplete) = true ∧
      (value.isMissing || isCompleteExpr value) = true := by
    simpa [isCompleteStmt] using hg.complete
  obtain ⟨h, -⟩ := ih (hg.part hvalue (subset_append_left ..)
    fun env done => ⟨env, done, subset_append_right ..⟩)
  have hclosed := hspell.closed_of_isValid htype
    (hg.knows fun env done => ⟨env, done, subset_append_left ..⟩)
  obtain ⟨d, hdecl, -⟩ := hg.declared.right _ mem_cons_self
  have hslot := h.slot hlocal hclosed [.var n.record]
    (.one (by rw [hdecl, varDecl_of_declAt hdecl])) (by simp)
  exact ⟨h, hslot.line hline hlocal.isSome_local? (.refl _)⟩

theorem proper_typeDecl {kind : TypeDeclKind} {fields variants : List MemberForm}
    {methods : List Stmt} {r : TypeDeclRecord} {xs ys : List Code.Member} {ds : List DeclId}
    (hr : c.tree.stmts.typeDecls.get? n.record.index = some r)
    (htype : t.module.types.view i = .atom (.named r.decl))
    (hfields : LowersMembers c t ((r.fields.getD []).map Syntax.Member.decl) fields xs)
    (hvariants : LowersMembers c t ((r.variants.getD []).map Syntax.Member.decl) variants ys)
    (hitem : HasItem t p (r.decl, ⟨.type, r.decl, c.name name, n.span, none,
      some ⟨kind, i, xs, ys, ds⟩, none⟩))
    (ih : (Judgement.methods r.decl methods p.addItem q).Proper clean c t all) :
    (Judgement.stmt (.typeDecl n kind name nameSpan fields variants methods) p q []).Proper clean c
      t all := by
  intro hg
  obtain ⟨⟨hcf, hcv⟩, hcm⟩ : (fields.all (fun m => m.type.isComplete) = true ∧
      variants.all (fun m => m.type.isMissing || m.type.isComplete) = true) ∧
      areCompleteStmts methods = true := by
    simpa [isCompleteStmt] using hg.complete
  have hsites : (outlineStmt (.typeDecl n kind name nameSpan fields variants methods)).sites =
      .type n.record ::
        ((outlineEach (.field n.record) 0 (fields.map Resolution.labelOfMember)).sites ++
        ((outlineEach (.variant n.record) 0 (variants.map Resolution.labelOfMember)).sites ++
          (outlineStmts methods).sites)) := rfl
  have hmethods := ih (hg.part hcm
    (by rw [hsites]; exact fun x hx =>
      mem_cons_of_mem _ (mem_append_right _ (mem_append_right _ hx)))
    fun env done => ⟨_, done, fun u hu =>
      mem_append_right _ (mem_append_right _ hu)⟩)
  have hfield (f : MemberForm) (hf : f ∈ fields) (i : TypeId)
      (hspell : Spells c t.module.types f.type i) : t.module.types.Closed clean i :=
    hspell.closed (all_eq_true.1 hcf f hf) (hg.knows fun env done => ⟨_, done, fun u hu =>
      mem_append_left _ (mem_flatMap.2 ⟨f, hf, hu⟩)⟩)
  have hvariant (f : MemberForm) (hf : f ∈ variants) (i : TypeId)
      (hspell : Spells c t.module.types f.type i) :
      i.isValid = true → t.module.types.Closed clean i :=
    hspell.closed_of_isValid (all_eq_true.1 hcv f hf) (hg.knows fun env done =>
      ⟨_, done, fun u hu =>
        mem_append_right _ (mem_append_left _ (mem_flatMap.2 ⟨f, hf, hu⟩))⟩)
  have hproper : t.module.ProperType clean ⟨kind, i, xs, ys, ds⟩ :=
    ⟨closed_of_atom htype rfl fun _ => nofun, hfields.forall_type hfield,
      hvariants.forall_type hvariant⟩
  have hdecl : declAt c.tree (.type n.record) = some r.decl := by
    rw [declAt, hr]
    rfl
  have hitem' : t.module.ProperItem clean ⟨.type, r.decl, c.name name, n.span, none, some _,
    none⟩ :=
    ⟨⟨nofun, nofun⟩, fun _ => rfl, nofun, fun _ hx => Option.some.inj hx ▸ hproper⟩
  refine ((hmethods.item hitem hitem' rfl hdecl nofun).widen
    (((sublist_append_right ..).trans (sublist_append_right ..)).cons_cons _).subperm ?_)
  intro _ x hx
  rcases mem_cons.1 hx with hx | hx
  · cases hx
  · have hbehind := func_mem_of_mem_outlineEach hx fun _ => nofun
    exact mem_cons_of_mem _ (func_mem_of_mem_outlineEach hbehind fun _ => nofun)

theorem proper_function {owner : DeclId} {params : List ParamForm} {result : TypeExpr} {body : Expr}
    {r : FuncRecord} {xs : List Code.Param} {res : TypeId} {b : BlockId}
    (wf : t.module.types.WellFormed) (hr : c.tree.stmts.funcs.get? n.record.index = some r)
    (hparams : LowersParams c t ((r.params.getD []).map Syntax.Param.decl) params p p1 xs)
    (hres : SpellsResult c t.module.types result res)
    (htype : t.module.types.view i = .fn (xs.map Code.Param.type) res)
    (hitem : r.decl.isValid = true → HasItem t p1 (r.decl, ⟨.func, r.decl, c.name name, n.span,
      some ⟨xs, res, b, owner, i⟩, none, none⟩))
    (ih : (Judgement.body body (if r.decl.isValid then p1.addItem else p1) q b).Proper clean c t
      all) :
    (Judgement.func owner n name params result body p q).Proper clean c t all := by
  intro nameSpan modifier hg
  obtain ⟨⟨hcp, hcr⟩, hcb⟩ : (params.all (fun p => p.type.isComplete) = true ∧
      (result.isMissing || result.isComplete) = true) ∧
      (body.isMissing || isCompleteExpr body) = true := by
    simpa [isCompleteStmt] using hg.complete
  have hsites := sites_outlineStmt_func n name nameSpan params result body modifier
  obtain ⟨d, hdecl, hvalid⟩ := hg.declared (.func n.record) (by rw [hsites]; exact mem_cons_self)
  obtain rfl : r.decl = d := by
    rw [declAt, hr] at hdecl
    exact Option.some.inj hdecl
  -- a function has a declaration, so there is an item for it
  rw [if_pos hvalid] at ih
  obtain ⟨hbody, hblock⟩ := ih (hg.part hcb
    (by rw [hsites]; exact fun x hx => mem_cons_of_mem _ (mem_append_right _ hx))
    fun env done => ⟨_, done, by
      rw [Resolution.usesStmt_func]
      exact fun u hu => mem_append_right _ (mem_append_right _ hu)⟩)
  have hparam (f : ParamForm) (hf : f ∈ params) (i : TypeId)
      (hspell : Spells c t.module.types f.type i) : t.module.types.Closed clean i :=
    hspell.closed (all_eq_true.1 hcp f hf) (hg.knows fun env done => ⟨_, done, fun u hu => by
      rw [Resolution.usesStmt_func]
      exact mem_append_left _ (mem_flatMap.2 ⟨f, hf, hu⟩)⟩)
  have hinside : Declared c.tree (_ ++ _) := fun x hx =>
    hg.declared x (by rw [hsites]; exact mem_cons_of_mem _ hx)
  obtain ⟨hslots, hxs⟩ := hparams.proper all hparam (fun k => by
    rw [Nat.zero_add, declAt, hr, List.getElem?_map]
    rfl) hinside.left
  have hresult : t.module.types.Closed clean res :=
    hres.closed wf hcr (hg.knows fun env done => ⟨_, done, fun u hu => by
      rw [Resolution.usesStmt_func]
      exact mem_append_right _ (mem_append_left _ hu)⟩)
  have hproper : t.module.ProperFunc clean ⟨xs, res, b, owner, i⟩ :=
    ⟨hxs, hresult, htype, fun hb => hblock (.inr hb)⟩
  have hitem' : t.module.ProperItem clean ⟨.func, r.decl, c.name name, n.span, some _, none,
    none⟩ :=
    ⟨⟨fun _ => rfl, fun _ => rfl⟩, nofun, fun _ hx => Option.some.inj hx ▸ hproper, nofun⟩
  have hfunc := hbody.item (hitem hvalid) hitem' rfl hdecl fun _ _ => rfl
  rw [hsites]
  exact (hslots.append hfunc).widen perm_middle.subperm fun _ _ hr => perm_middle.symm.subset hr

end Declarations

/-- The rules make proper fragments. By induction on the rules, one case for each: the fragments of
the premises are put together, and the new node takes what they left open. -/
theorem Lowers.proper {j : Judgement} (h : Lowers c t j) (wf : t.module.types.WellFormed)
    (hfaults : clean → t.faults = #[]) : j.Proper clean c t all := by
  induction h with
  | absent => exact fun _ => ⟨.absent _, by rintro ⟨⟩⟩
  | ident hname hv =>
    intro hg
    have hproper := hname.proper hfaults fun hclean => by
      obtain ⟨env, done, hknown⟩ := hg.known hclean
      exact hknown _ (mem_singleton_self _)
    refine ⟨(Fragment.nil _).value hv hproper ?_ ?_, fun _ => rfl⟩
    · cases hname <;> exact .nil
    · cases hname <;> exact .nil
  | literal hv =>
    intro hg
    exact ⟨(Fragment.nil _).value hv hg.complete .nil .nil, fun _ => rfl⟩
  | binary _ _ hv ihl ihr =>
    intro hg
    have hc := hg.both
    obtain ⟨hl, hleft⟩ := ihl (hg.left (by simp [hc]))
    obtain ⟨hr, hright⟩ := ihr (hg.right (by simp [hc]))
    exact ⟨(hl.append hr).value hv ⟨hleft hc.1, hright hc.2⟩ (.refl _) .nil, fun _ => rfl⟩
  | unary _ hv ih =>
    intro hg
    have hc := hg.both
    obtain ⟨h, hvalid⟩ := ih (hg.same (by simp [hc]))
    exact ⟨h.value hv ⟨hc.1, hvalid hc.2⟩ (.refl _) .nil, fun _ => rfl⟩
  | ref _ hv ih | deref _ hv ih | index _ hv ih | field _ hv ih =>
    intro hg
    obtain ⟨h, hplace⟩ := ih (hg.same hg.complete)
    exact ⟨h.value hv hplace (.refl _) .nil, fun _ => rfl⟩
  | call _ _ hv ihf ihargs =>
    intro hg
    have hc := hg.both
    obtain ⟨hf, hcallee⟩ := ihf ⟨by simp [hc], hg.declared.left, fun hclean => by
      obtain ⟨env, done, hknown⟩ := hg.known hclean
      rw [Resolution.usesExpr_call] at hknown
      exact ⟨env, done, knows_of_usesCallee (hknown.mono (subset_append_left ..))⟩⟩
    obtain ⟨hargs, hvalid⟩ := ihargs (hg.part hc.2 (subset_append_right ..) fun env done =>
      ⟨env, _, by rw [Resolution.usesExpr_call]; exact subset_append_right ..⟩)
    exact ⟨(hf.append hargs).value hv ⟨hcallee hc.1, hvalid⟩ (.refl _) .nil, fun _ => rfl⟩
  | array hspell htype hlocal halloc hline _ hv ih =>
    exact proper_array hspell htype hlocal halloc hline hv ih
  | cast _ hspell hv ih =>
    intro hg
    have hc := hg.both
    obtain ⟨h, hvalid⟩ := ih (hg.part (by simp [hc]) (.refl _)
      fun env done => ⟨env, done, subset_append_left ..⟩)
    have hclosed := hspell.closed hc.2
      (hg.knows fun env done => ⟨env, _, subset_append_right ..⟩)
    exact ⟨h.value hv ⟨hvalid hc.1, hclosed⟩ (.refl _) .nil, fun _ => rfl⟩
  | block _ hv ih =>
    intro hg
    obtain ⟨h, hblock⟩ := ih (.body hg)
    exact ⟨h.value hv (hblock (.inl hg.complete)) .nil (.refl _), fun _ => rfl⟩
  | ifElse _ _ _ hv ihcond ihbody iharms => exact proper_ifElse hv ihcond ihbody iharms
  | whileLoop _ _ hv ihcond ihbody =>
    intro hg
    have hc := hg.both
    obtain ⟨h1, -⟩ := ihcond (hg.left hc.1)
    obtain ⟨h2, hblock⟩ := ihbody (.body (hg.right (orComplete hc.2)))
    have h := (h1.append h2).value hv (hblock (.inl hc.2)) (.refl _) (.refl _)
    rw [append_nil] at h
    exact ⟨h, fun _ => rfl⟩
  | @forLoop n _ _ _ _ _ _ _ _ _ _ _ hf _ hlocal _ hv ihiter ihbody =>
    intro hg
    -- such a loop is reported, so that the names in it need not be known
    have hno := not_clean hfaults hf
    have hc := hg.both
    obtain ⟨h1, hvalid⟩ := ihiter (hg.left (by simp [hc]))
    obtain ⟨h2, hblock⟩ := ihbody ⟨by simp [hc],
      fun x hx => hg.declared.right x (mem_cons_of_mem _ hx), fun hclean => absurd hclean hno⟩
    obtain ⟨d, hdecl, -⟩ := hg.declared.right _ mem_cons_self
    have hloop : loopDecl c n = d := congrArg (·.getD 0) hdecl
    have hslot := h1.slot hlocal (by rintro ⟨⟩) [.loop n.record] (.one (by rw [hdecl, hloop]))
      (by simp)
    have h := (hslot.append h2).value hv ⟨hno, hlocal.isSome_local?, hvalid hc.1,
      hblock (.inl hc.2)⟩
      (.refl _) (.refl _)
    rw [append_assoc, append_nil] at h
    exact ⟨h, fun _ => rfl⟩
  | slotPlace hname =>
    cases hname with
    | slot _ _ hslot => exact fun _ => ⟨.nil _, hslot.isSome_local?⟩
  | derefPlace _ ih | fieldPlace _ ih => exact fun hg => ih (hg.same hg.complete)
  | indexPlace _ _ ihbase ihindex =>
    intro hg
    have hc := hg.both
    obtain ⟨h1, hplace⟩ := ihbase (hg.left hc.1)
    obtain ⟨h2, hvalid⟩ := ihindex (hg.right (by simp [hc]))
    exact ⟨h1.append h2, hplace, hvalid hc.2⟩
  | placed _ ih => exact ih
  | spilled _ _ hlocal hline ih =>
    intro hg
    obtain ⟨h, -⟩ := ih (hg.same (by simp [hg.complete]))
    exact ⟨(h.temp hlocal (by rintro ⟨⟩) rfl).line hline hlocal.isSome_local? (.refl _),
      hlocal.isSome_local?⟩
  | noBody =>
    refine fun _ => ⟨.noBlock _, ?_⟩
    rintro (h | h) <;> cases h
  | blockBody hblock _ ih =>
    intro hg
    have h := ih (hg.same hg.complete)
    refine ⟨h.block hblock, fun _ => ?_⟩
    rw [hblock.block?]
    rfl
  | valueBody _ hne hblock _ ih =>
    intro hg
    obtain ⟨h, -⟩ := ih (hg.part hg.complete (.refl _) fun env done =>
      ⟨env, done, by rw [usesBody_of_ne_block hne]; exact .refl _⟩)
    refine ⟨h.block hblock, fun _ => ?_⟩
    rw [hblock.block?]
    rfl
  | noArgs => exact fun _ => ⟨.nil _, forall_mem_nil _⟩
  | consArgs _ _ ih ihs =>
    intro hg
    have hc := hg.both
    obtain ⟨h, hvalid⟩ := ih (hg.left (by simp [hc]))
    obtain ⟨hs, hvalids⟩ := ihs (hg.right hc.2)
    exact ⟨h.append hs, forall_mem_cons.2 ⟨hvalid hc.1, hvalids⟩⟩
  | noElems => exact fun _ _ => .nil _
  | @consElems l i e es p p1 q L L' v span _ hindex hline _ ih ihs =>
    intro hslot hg
    have hc := hg.both
    obtain ⟨h, hvalid⟩ := ih (hg.left (by simp [hc]))
    have hs := ihs hslot (hg.right hc.2)
    have hat : Made clean c all t [] p1 p1.addValue [] [p1.value] [] :=
      (Fragment.nil p1).value hindex rfl .nil .nil
    have hstore := (h.append hat).line hline ⟨⟨hslot, rfl⟩, hvalid hc.1⟩ (.swap ..)
    have hall := hstore.append hs
    rwa [append_nil, append_nil, append_assoc] at hall
  | @noArms _ closed =>
    cases closed with
    | true => exact ⟨rfl, rfl, rfl, fun _ => rfl⟩
    | false => exact fun _ _ => ⟨[], (append_nil _).symm, .nil _, forall_mem_nil _⟩
  | closedArm hf _ ih =>
    obtain ⟨hq, hL, hchain, -⟩ := ih
    exact ⟨hq, hL, hchain, fun hclean => absurd hclean (not_clean hfaults hf)⟩
  | plainArm _ _ ihbody iharms => exact proper_plainArm ihbody iharms
  | elseIfArm _ _ _ ihcond ihbody iharms => exact proper_elseIfArm ihcond ihbody iharms
  | noStmts => exact fun _ => .absent _
  | tailStmt _ ih =>
    intro hg
    have hc := hg.complete
    simp only [areCompleteStmts, isCompleteStmt, Bool.and_true] at hc
    obtain ⟨h, -⟩ := ih (hg.left (by simp [hc]))
    exact h.widen (sublist_append_left ..).subperm fun _ r hr => by
      simpa [outlineStmts, outlineStmt] using hr
  | consStmts _ _ _ ih ihs =>
    intro hg
    have hc := hg.both
    exact (ih (hg.left hc.1)).append (ihs (hg.right hc.2))
  | var _ hspell hlocal hline ih => exact fun hg => (proper_bind hspell hlocal hline ih hg).2
  | assign _ _ hline ihtarget ihvalue =>
    intro hg
    have hc := hg.both
    obtain ⟨h1, hplace⟩ := ihtarget (hg.left hc.1)
    obtain ⟨h2, hvalid⟩ := ihvalue (hg.right (by simp [hc]))
    exact (h1.append h2).line hline ⟨hplace, hvalid hc.2⟩ (.refl _)
  | @unassigned _ target value _ _ _ _ hno _ hline ih =>
    intro hg
    have hc := hg.both
    obtain ⟨h, hvalid⟩ := ih (hg.right (by simp [hc]))
    refine (h.line hline (hvalid hc.2) (.refl _)).widen (sublist_append_right ..).subperm
      fun hclean r hr => ?_
    -- only a name is dropped without a fault
    cases hno with
    | unresolved => exact hr
    | unfit _ _ hf => exact absurd hclean (not_clean hfaults hf)
  | func _ ih => exact ih _ _
  | undeclared hr hinvalid => exact fun hg => (hg.declared.not_undeclared hr hinvalid).elim
  | typeDecl hr _ htype hfields hvariants hitem _ ih =>
    exact proper_typeDecl hr htype hfields hvariants hitem ih
  | impl _ ih =>
    intro hg
    have hc := hg.both
    exact ih (hg.part hc.2 (.refl _) fun env done =>
      ⟨_, done, fun u hu => mem_append_right _ (mem_append_right _ hu)⟩)
  | expr _ hline ih =>
    intro hg
    have hc : isCompleteExpr _ = true := hg.complete
    obtain ⟨h, hvalid⟩ := ih (hg.same (by simp [hc]))
    exact h.line hline (hvalid hc) (.refl _)
  | return_ _ hline ih | break_ _ hline ih =>
    intro hg
    obtain ⟨h, -⟩ := ih (hg.same hg.complete)
    exact h.line hline trivial (.refl _)
  | @continue_ _ value _ hgiven hline =>
    intro hg
    refine ((Fragment.nil _).line hline trivial .nil).widen (nil_sublist _).subperm
      fun hclean r hr => ?_
    cases value with
    | absent => exact hr
    | _ =>
      obtain ⟨f, hf⟩ := hgiven rfl
      exact absurd hclean (not_clean hfaults hf)
  | function hr hparams hres htype hitem _ ih =>
    exact proper_function wf hr hparams hres htype hitem ih
  | noMethods => exact fun _ => .nil _
  | consMethods _ _ ih ihs =>
    intro hg
    have hc := hg.both
    exact (ih _ _ (hg.left hc.1)).append (ihs (hg.right hc.2))
  | skipMethod _ hf _ ihs =>
    intro hg
    have hc := hg.both
    exact (ihs (hg.right hc.2)).widen (sublist_append_right ..).subperm fun hclean =>
      absurd hclean (not_clean hfaults hf)

/-! ## Whole units -/

theorem LowersTop.proper {s : Stmt} (h : LowersTop c t s p q L)
    (wf : t.module.types.WellFormed) (hfaults : clean → t.faults = #[])
    (hg : GivenStmt clean c all s) : Made clean c all t (outlineStmt s).sites p q L [] [] := by
  cases h with
  | @var n name nameSpan type value _ p q L v i hvalue hspell hlocal hline hitem =>
    obtain ⟨h, hbind⟩ := proper_bind hspell hlocal hline (hvalue.proper wf hfaults) hg
    -- the variable has a declaration, so there is an item for it
    obtain ⟨d, hdecl, hvalid⟩ := hg.declared.right _ mem_cons_self
    rw [varDecl_of_declAt hdecl] at hitem ⊢
    rw [if_pos hvalid]
    have hglobal : Made clean c all t [.var n.record] q.addLocal.addLine
        q.addLocal.addLine.addItem [] [] [] :=
      (Fragment.nil q.addLocal.addLine.addItem).item (hitem hvalid)
        ⟨⟨nofun, nofun⟩, nofun, nofun, nofun⟩ rfl hdecl nofun
    have hall := hbind.append hglobal
    rw [append_nil] at hall
    -- the slot and the item are those of the same site
    refine { hall with decls := ?_, slots := hbind.slots, funcs := fun hclean r hr => ?_ }
    · rw [← itemsIn_append hbind.le hglobal.le, map_append]
      exact h.decls.append hglobal.decls
    · exact hall.funcs hclean r (mem_append_left _ hr)
  | declaration _ hstmt => exact hstmt.proper wf hfaults hg
  | rejected _ _ hf =>
    exact (Fragment.nil _).widen (nil_sublist _).subperm fun hclean =>
      absurd hclean (not_clean hfaults hf)

theorem LowersProgram.proper {ss : List Stmt}
    (h : LowersProgram c t ss p q L) (wf : t.module.types.WellFormed)
    (hfaults : clean → t.faults = #[]) (hg : GivenStmts clean c all ss) :
    Made clean c all t (outlineStmts ss).sites p q L [] [] := by
  induction h with
  | nil => exact .nil _
  | cons hs _ ih =>
    have hc := hg.both
    exact (hs.proper wf hfaults (hg.left hc.1)).append (ih (hg.right hc.2))

/-! ### From the whole fragment to the module -/

section Whole

variable {s : State}

theorem itemsIn_whole (s : State) : itemsIn s.module .start s.pos = s.module.items.toList := by
  have hlength : s.pos.items = s.module.items.toList.length := rfl
  rw [itemsIn, slice, hlength, take_length]
  rfl

theorem index_of_get {α : Type} {k : IdKind} {i : Id k} {xs : Array α} {x : α} {n : Nat}
    (hsize : xs.size = n + 1) (h : (if i.isValid then xs[i.index]? else none) = some x) :
    0 < i.index ∧ i.index ≤ n := by
  split at h
  next hvalid =>
    have hne : i.index ≠ 0 := by simpa [Id.isValid] using hvalid
    have hlt := (Array.getElem?_eq_some_iff.1 h).1
    omega
  next => cases h

variable {m : Module}

/-- If no declaration has two items, the item with a declaration is any one that has it. -/
theorem item?_of_mem (hnodup : m.itemDecls.Nodup) {d : DeclId} {x : Item}
    (h : (d, x) ∈ m.items.toList) : m.item? d = some x := by
  have hmem : d ∈ m.itemDecls := mem_map_of_mem h
  obtain ⟨y, hy⟩ := Option.isSome_iff_exists.1 (Module.isSome_item?_iff.2 hmem)
  obtain ⟨l, l', heq, -⟩ := lookup_eq_some_iff.1 hy
  have hlast : (d, y) ∈ m.items.toList := by
    rw [← mem_reverse, heq]
    exact mem_append_right _ mem_cons_self
  cases inj_on_of_nodup_map hnodup hlast h rfl
  exact hy

theorem roots_perm (hdense : m.Dense) (hnodup : m.itemDecls.Nodup) :
    (m.lineOperands m.globals ++ m.items.toList.flatMap fun x => m.bodyOperands x.2).Perm
      m.roots := by
  have horder : m.itemDecls.Perm m.sortedDecls := by
    refine .trans ?_ (mergeSort_perm _ _).symm
    exact (perm_ext_iff_of_nodup hnodup hdense.itemOrder).2 fun d => (hdense.mem_itemOrder d).symm
  have hitems : (m.items.toList.flatMap fun x => m.bodyOperands x.2) =
      (m.itemDecls.map m.item?).flatMap fun x => x.elim [] m.bodyOperands := by
    rw [Module.itemDecls, map_map, flatMap_map]
    refine flatMap_congr fun x hx => ?_
    rw [Function.comp_apply, item?_of_mem hnodup hx]
    rfl
  rw [hitems]
  exact ((horder.map _).flatMap_right _).append_left _

theorem Fragment.nodup_itemDecls {L : List LineId}
    (h : Fragment clean (IsFunc c all) c s.module all .start s.pos L [] [])
    (hnodup : (all.map (declAt c.tree)).Nodup) : s.module.itemDecls.Nodup := by
  have := h.decls.nodup hnodup
  rwa [itemsIn_whole] at this

/-- A fragment that is the whole module and has nothing open but the lines of the module. -/
theorem Fragment.regular (hs : Ready s)
    (h : Fragment clean (IsFunc c all) c s.module all .start s.pos s.module.globals [] [])
    (hnodup : (all.map (declAt c.tree)).Nodup) : s.module.Regular clean := by
  have hitems := itemsIn_whole s
  have hdecls := h.nodup_itemDecls hnodup
  have hlatest {d : DeclId} {x : Item} (hx : (d, x) ∈ s.module.items.toList) :
      s.module.item? d = some x := item?_of_mem hdecls hx
  have hmem (w : ValueId) (hvalid : w.isValid = true) (hw : w.index < s.module.values.size) :
      w ∈ idsIn 0 s.module.counters.values := by
    have hpos : w.index ≠ 0 := by simpa [Id.isValid] using hvalid
    rw [hs.dense.values] at hw
    exact mem_idsIn.2 (by omega)
  -- nothing is open but the module's own lines and the bodies of its items
  have hmeets : s.module.Meets s.module.roots (idsIn 0 s.module.counters.values) := by
    have := h.meets
    rw [openOperands, hitems, flatMap_nil, append_nil, append_nil] at this
    exact this.perm (roots_perm hs.dense hdecls)
  -- a function that is named is declared somewhere, and there it was lowered
  have hfunc (hclean : clean) (d : DeclId) (hd : IsFunc c all d) : s.module.HasFunc d := by
    obtain ⟨r, hr, hdecl⟩ := hd
    obtain ⟨⟨d', x⟩, hx, hdecl', hfunc⟩ := h.funcs hclean r hr
    cases hdecl.symm.trans hdecl'
    rw [hitems] at hx
    obtain ⟨f, hf⟩ := Option.isSome_iff_exists.1 hfunc
    exact ⟨x, f, hlatest hx, hf⟩
  refine
    { types := hs.types
      values := fun hx => ?_
      lines := fun hx => ?_
      blocks := fun hx => ?_
      locals := fun hx => ?_
      items := fun {d x} hx => ?_
      order := fun d => (hs.dense.mem_itemOrder d).trans Module.isSome_item?_iff.symm
      latest := hlatest
      globals := h.listed
      backward := fun v w hw => ?_
      once := hmeets.usedOnce ?_ hmem
      roots := fun w hw => ?_
      places := fun hx => ?_ }
  · obtain ⟨hpos, hle⟩ := index_of_get hs.dense.values hx
    obtain ⟨y, hy, hproper, -⟩ := h.values hpos hle
    cases hx.symm.trans hy
    exact hproper.mono hfunc
  · obtain ⟨hpos, hle⟩ := index_of_get hs.dense.lines hx
    obtain ⟨y, hy, hproper⟩ := h.lines hpos hle
    cases hx.symm.trans hy
    exact hproper
  · obtain ⟨hpos, hle⟩ := index_of_get hs.dense.blocks hx
    obtain ⟨y, hy, hproper⟩ := h.blocks hpos hle
    cases hx.symm.trans hy
    exact hproper
  · obtain ⟨hpos, hle⟩ := index_of_get hs.dense.locals hx
    obtain ⟨y, hy, hclosed⟩ := h.locals hpos hle
    cases hx.symm.trans hy
    exact hclosed
  · obtain ⟨l, l', heq, -⟩ := lookup_eq_some_iff.1 hx
    refine h.items (d, x) ?_
    rw [hitems, ← mem_reverse, heq]
    exact mem_append_right _ mem_cons_self
  · obtain ⟨hvalid, hlt⟩ := Module.isValid_of_mem_operands hw
    obtain ⟨x, hx⟩ := Module.Regular.value?_of_index_lt hvalid hlt
    obtain ⟨hpos, hle⟩ := index_of_get hs.dense.values hx
    obtain ⟨y, hy, -, hback⟩ := h.values hpos hle
    rw [Module.operands, hy] at hw
    exact hback w hw
  · exact (nodup_range' ..).map fun a b hab => by cases hab; rfl
  · by_cases hvalid : w.isValid = true
    · have hle : w.index ≤ s.module.counters.values := (mem_idsIn.1 (hmeets.mem hw hvalid)).2
      rw [hs.dense.values]
      omega
    · have hzero : w.index = 0 := by simpa [Id.isValid] using hvalid
      rw [hs.dense.values]
      omega
  · obtain ⟨hpos, hle⟩ := index_of_get hs.dense.lines hx
    rcases h.placed hpos hle with hi | ⟨b, hb, -⟩ | hi
    · exact .global hi
    · cases hb
    · exact hi

end Whole

section

variable {tree : Tree} {r : Resolution.Resolved} {s : State}

theorem Front.fragment (h : Front tree r s) (hwf : Resolution.WellFormed tree)
    (hcomplete : areCompleteStmts tree.program = true)
    (hclean : clean → r.faults = [] ∧ s.faults = #[]) :
    Fragment clean (IsFunc ⟨r.tree, r.table.decls⟩ (outline tree).sites)
      ⟨r.tree, r.table.decls⟩ s.module (outline tree).sites .start s.pos
      s.module.globals [] [] := by
  refine h.rules.proper h.ready.types (fun hc => (hclean hc).2) ⟨hcomplete, h.declared,
    fun hc => ?_⟩
  exact ⟨[Resolution.rootFrame tree], [], fun u hu => h.known hwf (hclean hc).1 hu⟩

theorem Front.regular (h : Front tree r s) (hwf : Resolution.WellFormed tree)
    (hcomplete : areCompleteStmts tree.program = true)
    (hclean : clean → r.faults = [] ∧ s.faults = #[]) : s.module.Regular clean :=
  (h.fragment hwf hcomplete hclean).regular h.ready (h.nodup_numbers hwf)

end

end UnitCheck.Lowering
