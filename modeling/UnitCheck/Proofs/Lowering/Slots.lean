import UnitCheck.Proofs.Lowering.Known
import UnitCheck.Proofs.Lowering.Sound
import UnitCheck.Proofs.Resolution.Wanted
import UnitCheck.Syntax.Build

/-!
# Slots are made in time

Lowering follows the program in the order in which variables are completed, so whatever a use may
ask for (`wants`) has a slot by then. Going through the program, `needs` are the slots that have to
be there: a statement gives the slot of its variable, and the step from one part to the next asks
for no others (`Met`). So lowering reports no error of its own, and resolution does not either
(`no_internal_faults`).

Variables that stand directly in the body of a type or an implementation have no slots. Nothing is
said of programs in which a name leads to one of them; there it does go wrong
(`member_has_no_slot`). -/

namespace UnitCheck.Lowering

open Code List Resolution Syntax Bool

variable {calm : Prop} {P : DeclId → Prop} {known : List Fact} {c : Context} {env : List Frame}
  {done : List Site}

/-! ## What names need -/

/-- What has to be known where the uses may ask for something. -/
def needs (c : Context) (env : List Frame) (done : List Site) : List Fact :=
  (wants env done).map fun x => .slot (siteDecl c x)

/-- What is known behind a statement: its variable has a slot. -/
def gains (c : Context) : Stmt → List Fact
  | .var n _ _ _ _ _ => [.slot (varDecl c n)]
  | _ => []

/-- If a use stands for a variable or parameter, it may ask for it. -/
def Slotted (c : Context) (u : Resolution.Use) : Prop :=
  match u.mention with
  | .value n | .callee _ n => ∀ d, c.decls.get? (identDecl c n) = some d →
      d.kind = .var ∨ d.kind = .param → .slot (identDecl c n) ∈ needs c u.frames u.completed
  | .type _ => True

theorem needs_subset {env' : List Frame} {done' : List Site} :
    needs c env' done' ⊆ known ↔ ∀ x ∈ wants env' done', .slot (siteDecl c x) ∈ known := by
  simp [needs, subset_def]

/-- A part of a program that is met in the scopes `env`. -/
structure Met (calm : Prop) (c : Context) (env : List Frame) (done : List Site) (o : Outline)
    (us : List Resolution.Use) : Prop where
  apart : Apart env done o
  slotted : calm → ∀ u ∈ us, Slotted c u

namespace Met

variable {o o' : Outline} {us us' : List Resolution.Use}

theorem left (h : Met calm c env done (o ++ o') (us ++ us')) : Met calm c env done o us :=
  ⟨h.apart.left, fun hcalm u hu => h.slotted hcalm u (mem_append_left _ hu)⟩

theorem right (h : Met calm c env done (o ++ o') (us ++ us')) :
    Met calm c env (done ++ o.completed) o' us' :=
  ⟨h.apart.right, fun hcalm u hu => h.slotted hcalm u (mem_append_right _ hu)⟩

theorem before (h : Met calm c env done (o ++ o') us) : Met calm c env done o us :=
  ⟨h.apart.left, h.slotted⟩

theorem sub (h : Met calm c env done o us) (hsub : us' ⊆ us) : Met calm c env done o us' :=
  ⟨h.apart, fun hcalm u hu => h.slotted hcalm u (hsub hu)⟩

theorem last (h : Met calm c env done o (us ++ us')) : Met calm c env done o us' :=
  h.sub (subset_append_right ..)

theorem behind (h : Met calm c env done (o ++ o') us) (hsilent : o.completed = []) :
    Met calm c env done o' us :=
  ⟨h.apart.behind hsilent, h.slotted⟩

theorem enter {r : Region} (h : Met calm c env done (o.enclose r) us) :
    Met calm c (o.frame r :: env) done o us :=
  ⟨h.apart.enter, h.slotted⟩

/-- Behind a part only what it binds in the innermost scope is needed in addition. -/
theorem needs_behind (h : Met calm c env done o us) (hold : needs c env done ⊆ known)
    (hnew : ∀ f ∈ env.head?, f.region.isBody = false → ∀ b ∈ o.values, b.2.kind = .var →
      .slot (siteDecl c b.2) ∈ known) : needs c env (done ++ o.completed) ⊆ known :=
  needs_subset.2 (h.apart.forall_wants (needs_subset.1 hold) hnew)

theorem needs_inside {r : Region} (h : Met calm c env done (o.enclose r) us)
    (hold : needs c env done ⊆ known)
    (hnew : ∀ b ∈ o.values, b.2.kind = .param → .slot (siteDecl c b.2) ∈ known) :
    needs c (o.frame r :: env) done ⊆ known :=
  needs_subset.2 (h.apart.forall_wants_frame (needs_subset.1 hold) hnew)

theorem needs_behind_expr {e : Expr} (h : Met calm c env done (outlineExpr e) us) :
    needs c env (done ++ (outlineExpr e).completed) ⊆ needs c env done := by
  refine h.needs_behind (.refl _) fun f _ _ b hb => ?_
  rw [values_outlineExpr] at hb
  cases hb

theorem needs_behind_stmt {s : Stmt} (h : Met calm c env done (outlineStmt s) us) :
    needs c env (done ++ (outlineStmt s).completed) ⊆ gains c s ++ needs c env done := by
  refine h.needs_behind (subset_append_right ..) fun f _ _ b hb hkind => ?_
  obtain hfunc | ⟨n, _, _, _, _, _, rfl, hsite⟩ := binder_of_stmt hb
  · rw [hkind] at hfunc
    cases hfunc
  · rw [hsite]
    exact mem_cons_self

theorem needs_behind_member {f : Frame} (h : Met calm c (f :: env) done o us)
    (hf : f.region.isBody = true) :
    needs c (f :: env) (done ++ o.completed) ⊆ needs c (f :: env) done := by
  refine h.needs_behind (.refl _) fun g hg hbody => ?_
  cases hg
  rw [hf] at hbody
  cases hbody

end Met

/-! ## Programs -/

def chainIds (chain : Chain) : List AnyId := chain.branches.flatMap fun x => [x.1.any, x.2.any]

theorem chainIds_snoc (chain : Chain) (v : ValueId) (b : BlockId) :
    chainIds (chain.snoc v b) ⊆ v.any :: b.any :: chainIds chain := by
  induction chain with
  | last | orElse => simp [chainIds, Chain.snoc, Chain.branches]
  | orIf c b' next ih =>
    simp only [chainIds, Chain.snoc, Chain.branches] at ih ⊢
    grind

theorem chainIds_close (chain : Chain) (b : BlockId) :
    chainIds (chain.close b) ⊆ (0 : ValueId).any :: b.any :: chainIds chain := by
  induction chain with
  | last | orElse => simp [chainIds, Chain.close, Chain.branches]
  | orIf c b' next ih =>
    simp only [chainIds, Chain.close, Chain.branches] at ih ⊢
    grind

/-- The ways in which a statement is lowered: as a line, as the value of its block, and as a
function in the body of a type. -/
structure StmtKept (calm : Prop) (P : DeclId → Prop) (c : Context) (known : List Fact) (s : Stmt) :
    Prop where
  line : Keeps calm P known (lowerStmt c s) fun _ => gains c s
  tail : ∀ n e, s = .expr n e false → KeepsNew calm P known (useExpr c e).value
  func : ∀ n name nameSpan params result body modifier,
    s = .func n name nameSpan params result body modifier → ∀ owner, P owner →
      KeepsNew calm P known (funcOf c owner n name params result body)

mutual

theorem useExpr_kept (hc : c.Within P) {env : List Frame} {done : List Site} : ∀ e : Expr,
    isWholeExpr e = true → Met calm c env done (outlineExpr e) (usesExpr env done e) →
      (useExpr c e).Kept calm P (needs c env done)
  | .absent _, _, _ => .none
  | .ident n name, _, h =>
    useIdent_kept hc fun hcalm => h.slotted hcalm _ (mem_singleton_self _)
  | .literal _ _ _, _, _ => .ofValue (keeps_newValue (nil_subset _) _) _
  | .binary _ _ left right, hw, h => by
    obtain ⟨hleft, hright⟩ := and_eq_true_iff.1 hw
    have hl := useExpr_kept hc left hleft h.left
    have hr := (useExpr_kept hc right hright h.right).mono h.left.needs_behind_expr
    exact .ofValue (hl.value.bind fun _ => hr.value.behind fun _ =>
      keeps_newValue (by simp [Value.ids]) _) _
  | .unary _ _ operand, hw, h =>
    .ofValue ((useExpr_kept hc operand hw h).value.bind fun _ =>
      keeps_newValue (subset_append_left ..) _) _
  | .ref _ _ value, hw, h =>
    .ofValue ((useExpr_kept hc value hw h).placed.bind fun _ =>
      keeps_newValue (subset_append_left ..) _) _
  | .deref _ value, hw, h | .field _ value _, hw, h => by
    refine .ofPlace ((useExpr_kept hc value hw h).placed.bind fun _ => .pure ?_) _
    exact subset_append_left ..
  | .call n callee args, hw, h => by
    obtain ⟨hcallee, hargs⟩ := and_eq_true_iff.1 hw
    rw [usesExpr_call] at h
    have hf : (useExpr c callee).Kept calm P (needs c env done) := by
      have hother (h : Met calm c env done _ _) := useExpr_kept hc callee hcallee h
      have hmet := h.left
      cases callee with
      | ident c name =>
        exact useIdent_kept hc fun hcalm => hmet.slotted hcalm _ (mem_singleton_self _)
      | _ => exact hother hmet
    have hxs := (keeps_lowerArgs hc args hargs h.right).mono h.left.needs_behind_expr
    refine .ofValue (hf.value.bind fun f => hxs.behind fun xs =>
      .need_bind fun r hr => ?_) _
    refine .assume ((r.candidates.getD []).map fun d => .has d.any) (fun _ _ _ i hi => ?_)
      (keeps_newValue ?_ _)
    · obtain ⟨d, hd, rfl⟩ := mem_map.1 hi
      exact hc.places (x := .call n.record) (by rw [noteAt, hr]; rfl) d hd
    · simp only [Value.ids]
      grind
  | .index _ target index, hw, h => by
    obtain ⟨htarget, hindex⟩ := and_eq_true_iff.1 hw
    have ht := useExpr_kept hc target htarget h.left
    have hi := (useExpr_kept hc index hindex h.right).mono h.left.needs_behind_expr
    exact .ofPlace (ht.placed.bind fun _ => hi.value.behind fun _ => .pure (by grind [Place.ids])) _
  | .array n elems elemType, hw, h => by
    obtain ⟨helems, -⟩ := and_eq_true_iff.1 hw
    exact .ofValue (keeps_lowerArray hc (useElems_kept hc elems helems h.last) n elemType) _
  | .cast _ value type, hw, h => by
    obtain ⟨hvalue, -⟩ := and_eq_true_iff.1 hw
    have hv := useExpr_kept hc value hvalue (h.sub (subset_append_left ..))
    exact .ofValue (hv.value.bind fun _ => .bind (keeps_lowerType hc type) fun _ =>
      keeps_newValue (by simp [Value.ids]) _) _
  | .block n stmts, hw, h => by
    refine .ofBlock (keeps_inBlock fun b => ?_) _
    refine (keeps_lowerBody hc b stmts hw h.enter).mono (h.needs_inside (.refl _) ?_)
    exact fun b hb hkind => absurd hkind (kind_ne_param_of_mem_stmts stmts hb)
  | .ifElse _ cond body arms, hw, h => by
    obtain ⟨hw, harms⟩ := and_eq_true_iff.1 hw
    obtain ⟨hcond, hbody⟩ := and_eq_true_iff.1 hw
    have hv := useExpr_kept hc cond hcond h.left
    have hb := (useExpr_kept hc body hbody h.right.left).mono h.left.needs_behind_expr
    have hneeds := List.Subset.trans h.right.left.needs_behind_expr h.left.needs_behind_expr
    refine .ofValue (hv.value.bind fun v => hb.block.behind fun b =>
      .bind ((keeps_lowerArms hc (.last v b) false arms harms h.right.right).mono ?_) fun _ =>
        keeps_newValue (subset_append_left ..) _) _
    simp only [chainIds, Chain.branches]
    grind
  | .whileLoop _ cond body, hw, h => by
    obtain ⟨hcond, hbody⟩ := and_eq_true_iff.1 hw
    have hv := useExpr_kept hc cond hcond h.left
    have hb := (useExpr_kept hc body hbody h.right).mono h.left.needs_behind_expr
    exact .ofValue (hv.value.bind fun _ => hb.block.behind fun _ =>
      keeps_newValue (by simp [Value.ids]) _) _
  | .forLoop n binding bindingSpan iter body, hw, h => by
    obtain ⟨hiter, hbody⟩ := and_eq_true_iff.1 hw
    have hi := useExpr_kept hc iter hiter h.left
    have hinside := h.right.enter
    rw [← nil_append (usesExpr _ _ body)] at hinside
    have hb := useExpr_kept hc body hbody hinside.right
    refine .ofValue (keeps_lowerFor hc hi.value (hb.block.mono ?_) binding bindingSpan) _
    -- in the body the loop's variable is needed, which has a slot by then
    refine hinside.left.needs_behind ?_ fun _ _ _ b hb _ => ?_
    · refine h.right.needs_inside (subset_cons_of_subset _ h.left.needs_behind_expr)
        fun b hb hkind => ?_
      rw [Outline.values_append, values_outlineExpr, append_nil] at hb
      rw [eq_of_mem_values_declare hb] at hkind
      cases hkind
    · rw [eq_of_mem_values_declare hb]
      exact mem_cons_self

theorem keeps_lowerArgs (hc : c.Within P) {env : List Frame} {done : List Site} : ∀ es : List Expr,
    areWholeExprs es = true → Met calm c env done (outlineExprs es) (usesExprs env done es) →
      Keeps calm P (needs c env done) (lowerArgs c es) fun vs => vs.map fun v => .has v.any
  | [], _, _ => .pure (nil_subset _)
  | e :: es, hw, h => by
    obtain ⟨he, hes⟩ := and_eq_true_iff.1 hw
    have hv := useExpr_kept hc e he h.left
    have hvs := (keeps_lowerArgs hc es hes h.right).mono h.left.needs_behind_expr
    exact hv.value.bind fun _ => hvs.behind fun _ => .pure (by grind)

theorem useElems_kept (hc : c.Within P) {env : List Frame} {done : List Site} : ∀ es : List Expr,
    areWholeExprs es = true → Met calm c env done (outlineExprs es) (usesExprs env done es) →
      ∀ a ∈ useElems c es, KeepsNew calm P (needs c env done) a
  | [], _, _ => nofun
  | e :: es, hw, h => by
    obtain ⟨he, hes⟩ := and_eq_true_iff.1 hw
    refine forall_mem_cons.2 ⟨(useExpr_kept hc e he h.left).value, fun a ha => ?_⟩
    exact (useElems_kept hc es hes h.right a ha).mono h.left.needs_behind_expr

theorem keeps_lowerArms (hc : c.Within P) {env : List Frame} {done : List Site} (chain : Chain)
    (closed : Bool) : ∀ arms : List Arm, areWholeArms arms = true →
      Met calm c env done (outlineArms arms) (usesArms env done arms) →
      Keeps calm P ((chainIds chain).map .has ++ needs c env done) (lowerArms c chain closed arms)
        fun chain => (chainIds chain).map .has
  | [], _, _ => .pure (subset_append_left ..)
  | .mk kind cond body span :: arms, hw, h => by
    obtain ⟨hw, harms⟩ := and_eq_true_iff.1 hw
    obtain ⟨hcond, hbody⟩ := and_eq_true_iff.1 hw
    have hv := useExpr_kept hc cond hcond h.left
    have hb := (useExpr_kept hc body hbody h.right.left).mono h.left.needs_behind_expr
    have hneeds := List.Subset.trans h.right.left.needs_behind_expr h.left.needs_behind_expr
    have hrest {known : List Fact} (chain : Chain) (closed : Bool)
        (hchain : (chainIds chain).map .has ⊆ known) (hknown : needs c env done ⊆ known) :=
      (keeps_lowerArms hc chain closed arms harms h.right.right).mono
        (append_subset.2 ⟨hchain, List.Subset.trans hneeds hknown⟩)
    unfold lowerArms
    refine .ite (fun _ => ?_) fun _ => ?_
    · exact .andThen (keeps_invalidContext _ _) fun _ =>
        hrest _ _ (subset_append_left ..) (subset_append_right ..)
    split
    · refine hb.block.behind fun b => ?_
      refine .assume [.has (0 : ValueId).any]
        (fun _ hs _ => forall_mem_singleton.2 hs.module.has_zero.2.1) (hrest _ _ ?_ ?_)
      · have := chainIds_close chain b
        grind
      · simp +contextual [subset_def]
    · refine hv.value.behind fun v => .bind (hb.block.mono ?_) fun b => hrest _ _ ?_ ?_
      · simp +contextual [subset_def]
      · have := chainIds_snoc chain v b
        grind
      · simp +contextual [subset_def]
    · exact hrest _ _ (subset_append_left ..) (subset_append_right ..)

theorem keeps_lowerBody (hc : c.Within P) {env : List Frame} {done : List Site} (b : BlockId) :
    ∀ ss : List Stmt, areWholeStmts ss = true →
      Met calm c env done (outlineStmts ss) (usesStmts env done ss) →
      Keeps calm P (needs c env done) (lowerBody c b ss) fun _ => []
  | [], _, _ => .pure (nil_subset _)
  | s :: ss, hw, h => by
    obtain ⟨hwhole, hrest⟩ := and_eq_true_iff.1 hw
    have hs := stmt_kept hc s hwhole h.left
    have hss := (keeps_lowerBody hc b ss hrest h.right).mono h.left.needs_behind_stmt
    by_cases htail : ∃ n e, ss = [] ∧ s = .expr n e false
    · obtain ⟨n, e, rfl, rfl⟩ := htail
      rw [lowerBody]
      exact (hs.tail n e rfl).bind fun _ => keeps_setTail mem_cons_self b
    · rw [lowerBody]
      · exact hs.line.bind fun _ => hss
      · exact fun n e hs hnil => htail ⟨n, e, hnil, hs⟩

theorem stmt_kept (hc : c.Within P) {env : List Frame} {done : List Site} : ∀ s : Stmt,
    isWholeStmt s = true → Met calm c env done (outlineStmt s) (usesStmt env done s) →
      StmtKept calm P c (needs c env done) s
  | .absent _, _, _ => ⟨.pure (nil_subset _), nofun, nofun⟩
  | .var n name nameSpan type value modifier, hw, h => by
    obtain ⟨-, hvalue⟩ := and_eq_true_iff.1 hw
    have hv := useExpr_kept hc value hvalue h.last.before
    refine ⟨(keeps_lowerVar hc hv.value n name nameSpan type modifier).map fun _ => ?_, nofun,
      nofun⟩
    simp [gains]
  | .assign n target value, hw, h => by
    obtain ⟨htarget, hvalue⟩ := and_eq_true_iff.1 hw
    have ht := useExpr_kept hc target htarget h.left
    have hv := (useExpr_kept hc value hvalue h.right).mono h.left.needs_behind_expr
    exact ⟨keeps_lowerAssign ht hv.value n target, nofun, nofun⟩
  | .func n name nameSpan params result body modifier, hw, h => by
    obtain ⟨-, hbody⟩ := and_eq_true_iff.1 hw
    rw [outlineStmt_func, usesStmt_func] at h
    have hfunc := h.last.last.behind rfl
    have hinside := hfunc.enter.behind (completed_outlineEach (by simp [Site.kind]) _ _)
    have hneeds : needs c ((outlineInside n.record params body).frame (.func n.record) :: env)
        done ⊆ paramSlots c n params ++ needs c env done := by
      refine hfunc.needs_inside (subset_append_right ..) fun b hb hkind => ?_
      refine mem_append_left _ ?_
      rcases mem_append.1 hb with hb | hb
      · obtain ⟨k, hk, hb⟩ := mem_values_outlineEach hb
        rw [length_map] at hk
        rw [hb, Nat.zero_add]
        exact mem_map.2 ⟨k, mem_range.2 hk, rfl⟩
      · exact absurd hkind (kind_ne_param_of_mem_body hb)
    have hblock : Keeps calm P
        (needs c ((outlineInside n.record params body).frame (.func n.record) :: env) done)
        (useExpr c body).block fun b => [.has b.any] := by
      have hother {env : List Frame} (h : Met calm c env done _ _) := useExpr_kept hc body hbody h
      cases body with
      | block b stmts =>
        exact keeps_inBlock fun b => keeps_lowerBody hc b stmts hbody (hinside.behind rfl)
      | _ => exact (hother hinside).block
    have hkeeps {owner : DeclId} (howner : P owner) :
        KeepsNew calm P (needs c env done) (funcOf c owner n name params result body) := by
      refine keeps_lowerFunc hc howner (fun b hb => ?_) name result
      split at hb
      · cases hb
        exact hblock.mono hneeds
      · cases hb
    refine ⟨keeps_inGlobals (hkeeps hc.none).discard, nofun, ?_⟩
    rintro _ _ _ _ _ _ _ ⟨⟩ owner howner
    exact hkeeps howner
  | .typeDecl n kind name _ fields variants methods, hw, h => by
    obtain ⟨-, hmethods⟩ := and_eq_true_iff.1 hw
    have htype : Met calm c env done
        ((outlineType n.record fields variants methods).enclose (.type n.record)) _ :=
      h.last.last.behind rfl
    have hinside := (htype.enter.behind (completed_outlineEach (by simp [Site.kind]) _ _)).behind
      (completed_outlineEach (by simp [Site.kind]) _ _)
    refine ⟨keeps_inGlobals (keeps_lowerTypeDecl hc (fun d hd => ?_) n kind name fields variants),
      nofun, nofun⟩
    refine (keeps_lowerMethods hc rfl hd methods hmethods hinside).mono
      (htype.needs_inside (.refl _) fun b hb hkind => ?_)
    iterate 2
      rcases mem_append.1 hb with hb | hb
      · obtain ⟨k, -, hb⟩ := mem_values_outlineEach hb
        rw [hb] at hkind
        cases hkind
    exact absurd hkind (kind_ne_param_of_mem_stmts methods hb)
  | .impl n trait target methods, hw, h => by
    obtain ⟨-, hmethods⟩ := and_eq_true_iff.1 hw
    have himpl := h.last.last
    refine ⟨keeps_inGlobals (keeps_lowerImpl hc (fun d hd => ?_) n trait target), nofun, nofun⟩
    refine (keeps_lowerMethods hc rfl hd methods hmethods himpl.enter).mono
      (himpl.needs_inside (.refl _) fun b hb hkind => ?_)
    exact absurd hkind (kind_ne_param_of_mem_stmts methods hb)
  | .expr n e _, hw, h => by
    have he := (useExpr_kept hc e hw h).value
    refine ⟨he.bind fun _ => (keeps_emit (subset_append_left ..) _).discard, ?_, nofun⟩
    rintro _ _ ⟨⟩
    exact he
  | .jump n kind value, hw, h => by
    have hv := (useExpr_kept hc value hw h).value
    refine ⟨?_, nofun, nofun⟩
    unfold lowerStmt
    cases kind with
    | return_ | break_ => exact hv.bind fun _ => (keeps_emit (subset_append_left ..) _).discard
    | continue_ =>
      have hdone {known : List Fact} : Keeps calm P known (discard (emit .continue_ n.span))
        fun _ => [] :=
        (keeps_emit (nil_subset _) _).discard
      refine .ite (fun _ => .need_bind fun v _ => ?_) fun _ => hdone
      exact .andThen (keeps_invalidContext _ _) fun _ => hdone

theorem keeps_lowerMethods (hc : c.Within P) {f : Frame} {env : List Frame} {done : List Site}
    (hf : f.region.isBody = true) {owner : DeclId} (howner : P owner) : ∀ ss : List Stmt,
      areWholeStmts ss = true →
      Met calm c (f :: env) done (outlineStmts ss) (usesStmts (f :: env) done ss) →
      Keeps calm P (needs c (f :: env) done) (lowerMethods c owner ss)
        fun ds => ds.map fun d => .has d.any
  | [], _, _ => .pure (nil_subset _)
  | s :: ss, hw, h => by
    obtain ⟨hwhole, hrest⟩ := and_eq_true_iff.1 hw
    have hs := stmt_kept hc s hwhole h.left
    have hss := (keeps_lowerMethods hc hf howner ss hrest h.right).mono
      (h.left.needs_behind_member hf)
    have hrest (d : DeclId) : Keeps calm P (.has d.any :: needs c (f :: env) done) (do
        let ds ← lowerMethods c owner ss
        return if d.isValid then d :: ds else ds) fun ds => ds.map fun d => .has d.any := by
      refine .bind (hss.mono (subset_cons_self ..)) fun ds => .pure ?_
      split <;> grind
    have hskip := keeps_withDecl hc.none (hrest 0)
    cases s with
    | func n name nameSpan params result body modifier =>
      rw [lowerMethods]
      exact (hs.func n name nameSpan params result body modifier rfl owner howner).bind hrest
    | absent =>
      rw [lowerMethods]
      exact hskip
    | lost | bare => cases hwhole
    | var | assign | typeDecl | impl | expr | jump =>
      rw [lowerMethods]
      · refine .need_bind fun _ _ => .need_bind fun _ _ => .ite (fun _ => nofun) fun _ => ?_
        exact .andThen (keeps_invalidContext _ _) fun _ => hskip
      all_goals nofun

end

/-! ## Whole units -/

theorem keeps_lowerTop (hc : c.Within P) (s : Stmt) (hw : isWholeStmt s = true)
    (h : Met calm c env done (outlineStmt s) (usesStmt env done s)) :
    Keeps calm P (needs c env done) (lowerTop c s) fun _ => gains c s := by
  have hs := (stmt_kept hc s hw h).line
  cases s with
  | absent => exact .pure (nil_subset _)
  | lost | bare => cases hw
  | var n name nameSpan type value modifier =>
    have hv := useExpr_kept hc value (and_eq_true_iff.1 hw).2 h.last.before
    refine (keeps_lowerVar hc hv.value n name nameSpan type modifier).bind fun x =>
      .ite (fun _ => (keeps_addItem ?_).map fun _ => ?_) fun _ => .pure ?_
    · simp [Item.ids, Global.ids]
    all_goals simp [gains]
  | func | typeDecl | impl => exact hs
  | assign | expr | jump => exact keeps_invalidContext _ _

theorem keeps_lowerProgram (hc : c.Within P) (ss : List Stmt) (hw : areWholeStmts ss = true)
    (h : Met calm c env done (outlineStmts ss) (usesStmts env done ss)) :
    Keeps calm P (needs c env done) (lowerProgram c ss) fun _ => [] := by
  induction ss generalizing done with
  | nil => exact .pure (nil_subset _)
  | cons s ss ih =>
    obtain ⟨hwhole, hrest⟩ := and_eq_true_iff.1 hw
    exact (keeps_lowerTop hc s hwhole h.left).bind fun _ =>
      (ih hrest h.right).mono h.left.needs_behind_stmt

theorem sound_initial (h : P 0) : Sound calm P .initial := by
  have htypes : TypeTable.initial.ids = [(0 : TypeId).any, (0 : DeclId).any] := by decide
  have hsize : 22 ≤ TypeTable.initial.size := by decide
  refine ⟨⟨?_, ready_initial.dense, hsize, h, nofun⟩, nofun, nofun, forall_mem_singleton.2 nofun,
    nofun⟩
  have hone {α : Type} {x : α} {Q : α → Prop} (hx : Q x) : ∀ y ∈ #[x], Q y := by simpa using hx
  refine
    { items := nofun
      itemOrder := nofun
      impls := nofun
      globals := nofun
      blocks := hone (forall_mem_singleton.2 Nat.one_pos)
      lines := hone nofun
      values := hone nofun
      locals := hone (forall_mem_cons.2 ⟨h, forall_mem_singleton.2 ?_⟩)
      lineMarks := nofun
      valueMarks := nofun
      localMarks := nofun
      types := ?_ }
  · exact Nat.lt_of_lt_of_le (by decide) hsize
  · show ∀ i ∈ TypeTable.initial.ids, _
    rw [htypes]
    exact forall_mem_cons.2 ⟨Nat.lt_of_lt_of_le (by decide) hsize, forall_mem_singleton.2 h⟩

variable {tree : Tree} {r : Resolved} {s : State}

/-- Unless a name leads to a variable that stands directly in the body of a type or an
implementation, whatever a use stands for it may ask for. -/
theorem Front.slotted (h : Front tree r s) (hwf : WellFormed tree) (hbare : tree.IsBare)
    {u : Resolution.Use} (hu : u ∈ uses tree) (hmember : u.meansMember = false) :
    Slotted ⟨r.tree, r.table.decls⟩ u := by
  obtain ⟨t, hout, rfl⟩ := exists_outcome hwf h.resolved
  let c : Context := ⟨{ t.tree with names := t.table.names }, t.table.decls⟩
  have hvalue (n : ExprNode) (hplace : u.mention.place = .ident n.record)
      (hne : ∀ n, u.mention ≠ .type n) (d : Decl) (hd : c.decls.get? (identDecl c n) = some d)
      (hkind : d.kind = .var ∨ d.kind = .param) :
      .slot (identDecl c n) ∈ needs c u.frames u.completed := by
    have hrec := (hout.recorded u hu).decl
    rw [hplace] at hrec
    cases hx : u.site? with
    | none =>
      -- nothing was written into the name
      rw [hx] at hrec
      have hzero : identDecl c n = 0 := by
        cases hget : c.tree.exprs.idents.get? n.record.index with
        | none =>
          rw [identDecl, hget]
          rfl
        | some y =>
          have hnote : noteAt c.tree (.ident n.record) = some [y.decl] := by
            rw [noteAt, hget]
            rfl
          rw [identDecl_of_noteAt hnote]
          exact eq_zero_of_noteAt hbare (hrec.symm.trans hnote) y.decl (mem_singleton_self _)
      rw [hzero] at hd
      cases hd
    | some x =>
      replace hrec : noteAt t.tree (.ident n.record) = (declAt t.tree x).map fun d => [d] := by
        rw [hrec, hx]
      have hsite := (site_of_use hu hx).1.resolve_right (by
        rintro ⟨⟨n, hn⟩, -⟩
        exact hne n hn)
      obtain ⟨i, d', hi, hd', htag⟩ := hout.tag_of_site hsite
      have hident : identDecl c n = i := identDecl_of_noteAt (hrec.trans (by rw [hi]; rfl))
      have hsame : declAt c.tree x = declAt t.tree x := by cases x <;> rfl
      rw [hident] at hd ⊢
      cases hd.symm.trans hd'
      rw [(Prod.mk.inj htag).1] at hkind
      refine mem_map.2 ⟨x, u.mem_wants hne hx hkind hmember, ?_⟩
      rw [siteDecl, hsame, hi]
      rfl
  unfold Slotted
  split
  next n hm => exact hvalue n (by rw [hm]; rfl) (by rw [hm]; rintro _ ⟨⟩)
  next n hm => exact hvalue n (by rw [hm]; rfl) (by rw [hm]; rintro _ ⟨⟩)
  next => trivial

theorem apart_program (hwf : WellFormed tree) :
    Apart [rootFrame tree] [] (outline tree) where
  nodup := hwf.sites
  fresh _ _ := not_mem_nil
  here f hf b hb _ := by
    cases hf
    exact hb
  around := nofun

theorem Front.sound (h : Front tree r s) (hwf : WellFormed tree)
    (hc : Context.Within ⟨r.tree, r.table.decls⟩ P)
    (hslotted : calm → ∀ u ∈ uses tree, Slotted ⟨r.tree, r.table.decls⟩ u) : Sound calm P s := by
  have hkeeps := keeps_lowerProgram hc _ hwf.whole ⟨apart_program hwf, hslotted⟩
  -- where nothing is done yet, nothing is wanted
  have hneeds : needs ⟨r.tree, r.table.decls⟩ [rootFrame tree] [] ⊆ [] := by
    refine needs_subset.2 fun x hx => ?_
    obtain ⟨f, hf, ⟨b, hb, rfl⟩, hwants⟩ := mem_wants.1 hx
    have hparam : b.2.kind = .param := by simpa [Frame.wants] using hwants
    rw [mem_singleton.1 hf] at hb
    exact absurd hparam (kind_ne_param_of_mem_stmts _ hb)
  exact (hkeeps.mono hneeds h.run (sound_initial hc.none) (forall_mem_nil _)).1

theorem Front.inRange (h : Front tree r s) (hwf : WellFormed tree)
    (hc : Context.Within ⟨r.tree, r.table.decls⟩ P) : s.module.Sound P :=
  (h.sound hwf hc (False.elim ·)).module

/-- Both passes give a result on every unit that nothing was written into yet. Resolution reports no
error of its own, and neither does lowering, unless a name leads to a variable that stands directly
in the body of a type or an implementation: such a variable can be seen but has no slot. -/
theorem no_internal_faults (tree : Tree) (hwf : WellFormed tree)
    (hcomplete : areCompleteStmts tree.program = true) (hbare : tree.IsBare) :
    ∃ r out, resolve tree = .ok r ∧ lower r.tree r.table.decls = .ok out ∧
      (∀ f ∈ r.faults, f.code ≠ .internalError) ∧
      ((∀ u ∈ uses tree, u.meansMember = false) → ∀ f ∈ out.faults, f.code ≠ .internalError) := by
  obtain ⟨r, s, h⟩ := exists_front hwf hcomplete
  refine ⟨r, _, h.resolved, h.lowered, ?_, fun hmember => ?_⟩
  rotate_left
  · exact (h.sound hwf (Context.within_all _) fun (_ : True) u hu =>
      h.slotted hwf hbare hu (hmember u hu)).faults trivial
  obtain ⟨t, hout, rfl⟩ := exists_outcome hwf h.resolved
  exact hout.internal

/-- A type with a variable and a method that uses a name:
`type T struct { let x = 1; fn m(y: int) { name; } }`. -/
def typeBody (used : NameId) : Tree :=
  let build : Build Unit := do
    let member ← Build.var .zero .zero 21 0 (← Build.literal .zero .int 24) .default
    let type ← Build.typeName .zero 1 .default
    let body ← Build.block .zero [← Build.exprStmt .zero (← Build.ident .zero used) true]
    let method ← Build.func .zero .zero 22 [⟨23, type, .default, .zero, 0⟩] 0 body .default
    Build.pushRoot (← Build.typeDecl .zero .zero .struct_ 20 [] [] [member, method])
  (build .empty).2

/-- A method may use its parameter. -/
theorem no_internal_faults_typeBody : (typeBody 23).IsBare ∧
    (∀ u ∈ uses (typeBody 23), u.meansMember = false) ∧
    ∃ r out, resolve (typeBody 23) = .ok r ∧ lower r.tree r.table.decls = .ok out ∧
      ∀ f ∈ r.faults ++ out.faults, f.code ≠ .internalError := by
  have hbare : (typeBody 23).IsBare := by constructor <;> decide
  have hmember : ∀ u ∈ uses (typeBody 23), u.meansMember = false := by
    decide +kernel
  obtain ⟨r, out, hr, hout, hresolved, hlowered⟩ :=
    no_internal_faults (typeBody 23) (by decide +kernel) (by decide +kernel) hbare
  exact ⟨hbare, hmember, r, out, hr, hout, forall_mem_append.2 ⟨hresolved, hlowered hmember⟩⟩

/-- If the method uses the variable of the type, every name is found, but the variable has no
slot. -/
theorem member_has_no_slot : (typeBody 21).IsBare ∧ ∃ r out, resolve (typeBody 21) = .ok r ∧
    lower r.tree r.table.decls = .ok out ∧ r.faults = [] ∧
      out.faults.map Fault.code = [.invalidContext, .internalError] := by
  have hbare : (typeBody 21).IsBare := by constructor <;> decide
  have hcodes : ((resolve (typeBody 21)).toOption.bind fun r =>
    (lower r.tree r.table.decls).toOption.map
      fun out => (r.faults.map Fault.code, out.faults.map Fault.code)) =
        some ([], [.invalidContext, .internalError]) := by
    decide +kernel
  have hwf : WellFormed (typeBody 21) := by decide +kernel
  obtain ⟨r, s, h⟩ := exists_front hwf (by decide +kernel)
  rw [h.resolved] at hcodes
  rw [Except.toOption, Option.bind_some, h.lowered] at hcodes
  obtain ⟨hresolved, hlowered⟩ := Prod.mk.inj (Option.some.inj hcodes)
  exact ⟨hbare, r, _, h.resolved, h.lowered, map_eq_nil_iff.1 hresolved, hlowered⟩

end UnitCheck.Lowering
