import UnitCheck.Proofs.Lowering.Pieces

/-!
# Lowering follows the rules

On a complete program lowering does not abort, and every construct becomes what the rules say:
`useExpr_lowers` for expressions, `lower_follows` for a whole unit.
-/

namespace UnitCheck.Lowering

open Code List Syntax Bool
open Run (Gives)

variable {c : Context}

/-! ## Blocks -/

theorem fills_nil (b : BlockId) : Fills b (pure ()) fun _ p q L v => q = p ∧ L = [] ∧ v = 0 := by
  intro s hs hbody ⟨lines, hcurrent⟩
  rw [State.current?, hbody] at hcurrent
  exact .pure ⟨s, [], 0, hs, .refl s, (State.withTail_zero hcurrent).symm,
    fun _ _ => ⟨rfl, rfl, rfl⟩⟩

theorem fills_cons {b : BlockId} {a fill : Lower Unit} {R : Makes Unit} {S : Makes ValueId}
    (ha : Builds a R) (hfill : Fills b fill S) :
    Fills b (do a; fill) (R.andThen fun _ => S) := by
  intro s hs hbody ⟨lines, hcurrent⟩
  refine (ha s hs).bind fun x s1 ⟨hs1, L1, hran, hx⟩ => ?_
  refine (hfill s1 hs1 (hran.body.trans hbody) ⟨_, hran.current hcurrent⟩).mono ?_
  rintro _ s' ⟨s2, L2, v, hs2, hran', rfl, hv⟩
  refine ⟨s2, L1 ++ L2, v, hs2, hran.trans hran', rfl, fun t ht => ?_⟩
  exact ⟨x, s1.pos, L1, L2, hx t (hran.later_left hran' hs ht),
    hv t (hran.later_right hs hs1 ht), rfl⟩

/-! ## Constructs, given their parts -/

section Constructs

variable {n : ExprNode} {e e' : Expr} {u u' : Use}

theorem Builds.thenValue {α : Type} {a : Lower α} {R : Makes α} (h : Builds a R) (x : α → Value)
    (span : Span) :
    Builds (do newValue (x (← a)) span) fun t p q L v =>
      ∃ y p1, R t p p1 L y ∧ HasValue t p1 (x y) span ∧ q = p1.addValue ∧ v = p1.value := by
  refine (h.bind fun y => builds_newValue (x y) span).mono ?_
  rintro t p q L v ⟨y, _, _, _, hy, ⟨rfl, rfl, rfl, hv⟩, rfl⟩
  rw [append_nil]
  exact ⟨y, _, hy, hv, rfl, rfl⟩

theorem absent_lowers (i : ExprId) : Use.none.Lowers c (.absent i) where
  value := .pure_of fun _ _ => .absent
  place := .pure_of fun _ _ => .inr ⟨rfl, rfl, rfl, rfl⟩
  block := .pure_of fun _ _ => ⟨rfl, .noBody⟩

theorem block_lowers {stmts : List Stmt} {fill : BlockId → Lower Unit}
    (h : ∀ b, Fills b (fill b) fun t p q L v => LowersStmts c t stmts p q L v) :
    (Use.ofBlock n.span (inBlock n.span fill)).Lowers c (.block n stmts) := by
  have hblock : Builds (inBlock n.span fill)
      fun t p q L b => L = [] ∧ LowersBlock c t (.block n stmts) p q b := by
    refine (builds_inBlock h).mono ?_
    rintro t p q L b ⟨rfl, rfl, lines, tail, hhas, hstmts⟩
    exact ⟨rfl, .blockBody hhas hstmts⟩
  refine ⟨?_, ?_, hblock⟩
  · refine (hblock.thenValue .block n.span).mono ?_
    rintro t p q L v ⟨b, p1, ⟨rfl, hb⟩, hv, rfl, rfl⟩
    exact .block hb hv
  · exact .pure_of fun _ _ => .inr ⟨rfl, rfl, rfl, rfl⟩

end Constructs

/-! ## Programs -/

variable {e : Expr} {s : Stmt}

theorem orComplete (h : isCompleteExpr e = true) : (e.isMissing || isCompleteExpr e) = true := by
  rw [h, Bool.or_true]

theorem node_of_complete (h : isCompleteExpr e = true) : e.node?.isSome := by
  cases e <;> first | rfl | cases h

theorem node_of_given (h : (e.isMissing || isCompleteExpr e) = true)
    (hgiven : e.isGiven = true) : e.node?.isSome := by
  cases e <;> first
    | rfl
    | simp_all [Expr.isMissing, isCompleteExpr, Expr.isGiven]

theorem length_useElems (es : List Expr) : (useElems c es).length = es.length := by
  induction es with
  | nil => rfl
  | cons e es ih => rw [useElems, length_cons, length_cons, ih]

theorem lowerArms_closed (chain : Chain) (kind : ArmKind) (cond body : Expr) (span : Span)
    (arms : List Arm) : lowerArms c chain true (.mk kind cond body span :: arms) = (do
      invalidContext span "'else' branch after the final 'else'"
      lowerArms c chain true arms) := by
  rfl

theorem lowerArms_plain (chain : Chain) (cond body : Expr) (span : Span) (arms : List Arm) :
    lowerArms c chain false (.mk .plain cond body span :: arms) = (do
      let b ← (useExpr c body).block
      lowerArms c (chain.close b) true arms) := by
  rfl

theorem lowerArms_elseIf (chain : Chain) (cond body : Expr) (span : Span) (arms : List Arm) :
    lowerArms c chain false (.mk .elseIf cond body span :: arms) = (do
      let v ← (useExpr c cond).value
      let b ← (useExpr c body).block
      lowerArms c (chain.snoc v b) false arms) := by
  rfl

theorem lowersBody_of {body : Expr} (h : (body.isMissing || isCompleteExpr body) = true)
    (hu : (useExpr c body).Lowers c body) :
    LowersBody c body (if body.isGiven then some (useExpr c body).block else none) := by
  unfold LowersBody
  cases body <;> try exact hu.block
  case absent i =>
    have hi : i.isValid = false := by simpa [Expr.isMissing, isCompleteExpr] using h
    simp [Expr.isGiven, hi]

theorem jump_ne_func (j : Jump) : j.kind ≠ .func := by cases j <;> decide

/-- Something that is no function in the body of a type or an implementation. -/
theorem builds_notFunc {n : StmtNode} {kind : StmtKind} {owner : DeclId} {ss : List Stmt}
    {rest : Lower (List DeclId)} (hnode : s.node? = some n) (hkind : s.kind? = some kind)
    (hne : kind ≠ .func)
    (h : Builds rest fun t p q L _ => L = [] ∧ LowersMethods c t owner ss p q) :
    Builds (do
      let d ← do
        let n ← Run.need s.node?
        let kind ← Run.need s.kind?
        if kind = .func then throw .malformed
        invalidContext n.span
          ("only functions may appear in a type or impl body, found '" ++ kind.toText ++ "'")
        pure (0 : DeclId)
      let ds ← rest
      return if d.isValid then d :: ds else ds) fun t p q L _ =>
        L = [] ∧ LowersMethods c t owner (s :: ss) p q := by
  refine .need_bind hnode (.need_bind hkind ?_)
  rw [if_neg hne]
  refine ((builds_report _).bind fun _ => (Builds.pure 0).bind fun d => h.thenPure _).mono ?_
  rintro t p q L _ ⟨_, _, _, _, ⟨rfl, rfl, hf⟩,
    ⟨d, _, _, _, ⟨rfl, rfl, -⟩, ⟨ds, ⟨rfl, hss⟩, -⟩, rfl⟩, rfl⟩
  refine ⟨rfl, .skipMethod ?_ hf hss⟩
  rw [hkind]
  exact fun h => hne (Option.some.inj h)

abbrev funcOf (c : Context) (owner : DeclId) (n : StmtNode) (name : NameId)
    (params : List ParamForm) (result : TypeExpr) (body : Expr) : Lower DeclId :=
  lowerFunc c n owner name params result
    (if body.isGiven then some (useExpr c body).block else none)

/-- The ways in which a statement is lowered: as a line, as the value of its block, and as a
function in the body of a type. -/
structure StmtLowers (c : Context) (s : Stmt) : Prop where
  line : Builds (lowerStmt c s) fun t p q L _ => LowersStmt c t s p q L
  tail : ∀ n e, s = .expr n e false → LowersAs c (useExpr c e).value e
  func : ∀ n name nameSpan params result body modifier,
    s = .func n name nameSpan params result body modifier →
    ∀ owner, Builds (funcOf c owner n name params result body) fun t p q L _ =>
      L = [] ∧ LowersFunc c t owner n name params result body p q

mutual

theorem useExpr_lowers : (e : Expr) → (e.isMissing || isCompleteExpr e) = true →
    RecordedExpr c.tree e → (useExpr c e).Lowers c e
  | .absent i, _, _ => by
    rw [useExpr]
    exact absent_lowers i
  | .lost, h, _ | .bare _ _, h, _ => by cases h
  | .ident n name, _, _ => by
    rw [useExpr]
    exact useIdent_lowers n name
  | .literal n kind text, _, _ => by
    rw [useExpr]
    refine .ofValue nofun nofun rfl ((builds_newValue _ n.span).mono ?_)
    rintro t p q L v ⟨rfl, rfl, rfl, hv⟩
    exact .literal hv
  | .binary n op left right, h, hr => by
    replace h := and_eq_true_iff.1 h
    have hleft := useExpr_lowers left (orComplete h.1) hr.1
    have hright := useExpr_lowers right (orComplete h.2) hr.2
    rw [useExpr]
    refine .ofValue nofun nofun rfl ((hleft.value.bind fun v =>
      hright.value.thenValue (.binary op v) n.span).mono ?_)
    rintro t p q L v ⟨x, p1, L1, L2, hx, ⟨y, p2, hy, hv, rfl, rfl⟩, rfl⟩
    exact .binary hx hy hv
  | .unary n op operand, h, hr => by
    replace h := and_eq_true_iff.1 h
    have hoperand := useExpr_lowers operand (orComplete h.2) hr
    rw [useExpr]
    refine .ofValue nofun nofun rfl ((hoperand.value.thenValue (.unary op) n.span).mono ?_)
    rintro t p q L v ⟨x, p1, hx, hv, rfl, rfl⟩
    exact .unary hx hv
  | .ref n isMut value, h, hr => by
    have hvalue := useExpr_lowers value (orComplete h) hr
    rw [useExpr]
    refine .ofValue nofun nofun rfl ((hvalue.placed.thenValue (.ref · isMut) n.span).mono ?_)
    rintro t p q L v ⟨x, p1, hx, hv, rfl, rfl⟩
    exact .ref hx hv
  | .deref n value, h, hr => by
    have hvalue := useExpr_lowers value (orComplete h) hr
    rw [useExpr]
    refine .ofPlace nofun nofun ((hvalue.placed.thenPure Place.deref).mono ?_) .deref
    rintro t p q L _ ⟨x, hx, rfl⟩
    exact .derefPlace hx
  | .call n callee args, h, hr => by
    replace h := and_eq_true_iff.1 h
    obtain ⟨hrecord, hcallee, hargs⟩ := hr
    obtain ⟨r, hrecord⟩ := Option.isSome_iff_exists.1 hrecord
    have hcallee := useExpr_lowers callee (orComplete h.1) hcallee
    have hargs := lowerArgs_lowers args h.2 hargs
    rw [useExpr]
    refine .ofValue nofun nofun rfl ((hcallee.value.bind fun v => hargs.bind fun vs =>
      .need_bind hrecord (builds_newValue (.call v vs (r.candidates.getD [])) n.span)).mono ?_)
    rintro t p q L v ⟨x, p1, L1, _, hx, ⟨xs, _, L2, _, hxs, ⟨rfl, rfl, rfl, hv⟩, rfl⟩, rfl⟩
    rw [append_nil]
    rw [show r.candidates.getD [] = callCandidates c n by rw [callCandidates, hrecord]; rfl] at hv
    exact .call hx hxs hv
  | .index n target index, h, hr => by
    replace h := and_eq_true_iff.1 h
    have htarget := useExpr_lowers target (orComplete h.1) hr.1
    have hindex := useExpr_lowers index (orComplete h.2) hr.2
    rw [useExpr]
    refine .ofPlace nofun nofun ((htarget.placed.bind fun x =>
      hindex.value.thenPure (Place.index x)).mono ?_) .index
    rintro t p q L _ ⟨x, p1, L1, _, hx, ⟨i, hi, rfl⟩, rfl⟩
    exact .indexPlace hx hi
  | .field n target field, h, hr => by
    have htarget := useExpr_lowers target (orComplete h) hr
    rw [useExpr]
    refine .ofPlace nofun nofun ((htarget.placed.thenPure (Place.field · (c.name field))).mono ?_)
      .field
    rintro t p q L _ ⟨x, hx, rfl⟩
    exact .fieldPlace hx
  | .array n elems elemType, h, hr => by
    obtain ⟨h, hlt⟩ := and_eq_true_iff.1 h
    replace h := and_eq_true_iff.1 h
    have helems := fun l => useElems_lowers l 0 elems h.1 hr.1
    rw [useExpr]
    exact .ofValue nofun nofun rfl
      (builds_lowerArray (length_useElems elems) (of_decide_eq_true hlt) h.2 helems)
  | .cast n value type, h, hr => by
    replace h := and_eq_true_iff.1 h
    have hvalue := useExpr_lowers value (orComplete h.1) hr.1
    have htype : (type.isMissing || type.isComplete) = true := by rw [h.2, Bool.or_true]
    rw [useExpr]
    refine .ofValue nofun nofun rfl ((hvalue.value.bind fun v =>
      (builds_lowerType htype).thenValue (.cast v) n.span).mono ?_)
    rintro t p q L v ⟨x, _, L1, _, hx, ⟨i, _, ⟨rfl, rfl, hi⟩, hv, rfl, rfl⟩, rfl⟩
    rw [append_nil]
    exact .cast hx hi hv
  | .block n stmts, h, hr => by
    have hstmts := fun b => lowerBody_lowers b stmts h hr.2
    rw [useExpr]
    exact block_lowers hstmts
  | .ifElse n cond body arms, h, hr => by
    replace h : (isCompleteExpr cond = true ∧ isCompleteExpr body = true) ∧
        areCompleteArms arms = true := by
      simpa [Expr.isMissing, isCompleteExpr] using h
    have hcond := useExpr_lowers cond (orComplete h.1.1) hr.1
    have hbody := useExpr_lowers body (orComplete h.1.2) hr.2.1
    have harms := fun chain closed => lowerArms_lowers chain closed arms h.2 hr.2.2
    rw [useExpr]
    refine .ofValue nofun nofun rfl ((hcond.value.bind fun v => hbody.block.bind fun b =>
      (harms (.last v b) false).thenValue (fun chain => .ifElse (some chain)) n.span).mono ?_)
    rintro t p q L v ⟨x, p1, L1, _, hx, ⟨b, p2, _, L2, ⟨rfl, hb⟩, ⟨chain, p3, hchain, hv, rfl, rfl⟩,
      rfl⟩, rfl⟩
    exact .ifElse hx hb hchain hv
  | .whileLoop n cond body, h, hr => by
    replace h := and_eq_true_iff.1 h
    have hcond := useExpr_lowers cond h.1 hr.1
    have hbody := useExpr_lowers body (orComplete h.2) hr.2
    rw [useExpr]
    refine .ofValue nofun nofun rfl ((hcond.value.bind fun v =>
      hbody.block.thenValue (.whileLoop v) n.span).mono ?_)
    rintro t p q L v ⟨x, p1, L1, _, hx, ⟨b, p2, ⟨rfl, hb⟩, hv, rfl, rfl⟩, rfl⟩
    rw [append_nil]
    exact .whileLoop hx hb hv
  | .forLoop n binding bindingSpan iter body, h, hr => by
    replace h := and_eq_true_iff.1 h
    have hiter := useExpr_lowers iter (orComplete h.1) hr.2.1
    have hbody := useExpr_lowers body (orComplete h.2) hr.2.2
    rw [useExpr]
    exact .ofValue nofun nofun rfl (builds_lowerFor hiter.value hbody.block)

theorem lowerArgs_lowers : (es : List Expr) → areCompleteExprs es = true →
    RecordedExprs c.tree es →
    Builds (lowerArgs c es) fun t p q L vs => LowersArgs c t es p q L vs
  | [], _, _ => by
    rw [lowerArgs]
    exact .pure_of fun _ _ => .noArgs
  | e :: es, h, hr => by
    replace h := and_eq_true_iff.1 h
    have he := useExpr_lowers e (orComplete h.1) hr.1
    have hes := lowerArgs_lowers es h.2 hr.2
    rw [lowerArgs]
    refine (he.value.bind fun v => hes.thenPure (v :: ·)).mono ?_
    rintro t p q L _ ⟨v, p1, L1, _, hv, ⟨vs, hvs, rfl⟩, rfl⟩
    exact .consArgs hv hvs

theorem useElems_lowers (l : LocalId) (i : Nat) : (es : List Expr) → areCompleteExprs es = true →
    RecordedExprs c.tree es →
    Builds (fillArray l i (useElems c es)) fun t p q L _ => LowersElems c t l i es p q L
  | [], _, _ => by
    rw [useElems]
    exact .pure_of fun _ _ => .noElems
  | e :: es, h, hr => by
    replace h := and_eq_true_iff.1 h
    have he := useExpr_lowers e (orComplete h.1) hr.1
    have hes := useElems_lowers l (i + 1) es h.2 hr.2
    rw [useElems]
    exact builds_fillArray_cons he.value hes

theorem lowerArms_lowers (chain : Chain) (closed : Bool) : (arms : List Arm) →
    areCompleteArms arms = true → RecordedArms c.tree arms →
    Builds (lowerArms c chain closed arms) fun t p q L chain' =>
      LowersArms c t chain closed arms p q L chain'
  | [], _, _ => by
    rw [lowerArms]
    exact .pure_of fun _ _ => .noArms
  | .mk kind cond body span :: arms, h, hr => by
    replace h : ((kind = .elseIf ∧ isCompleteExpr cond = true ∨ kind = .plain ∧
        cond.isMissing = true) ∧ isCompleteExpr body = true) ∧ areCompleteArms arms = true := by
      simpa [areCompleteArms] using h
    obtain ⟨⟨hkind, hbody⟩, hrest⟩ := h
    have hbody := useExpr_lowers body (orComplete hbody) hr.2.1
    cases closed with
    | true =>
      have harms := lowerArms_lowers chain true arms hrest hr.2.2
      rw [lowerArms_closed]
      refine ((builds_report _).bind fun _ => harms).mono ?_
      rintro t p q L chain' ⟨_, _, _, _, ⟨rfl, rfl, hf⟩, hchain, rfl⟩
      exact .closedArm hf hchain
    | false =>
      obtain ⟨rfl, hcond⟩ | ⟨rfl, -⟩ := hkind
      · have hcond := useExpr_lowers cond (orComplete hcond) hr.1
        have harms := fun v b => lowerArms_lowers (chain.snoc v b) false arms hrest hr.2.2
        rw [lowerArms_elseIf]
        refine (hcond.value.bind fun v => hbody.block.bind fun b => harms v b).mono ?_
        rintro t p q L chain' ⟨v, p1, L1, _, hv, ⟨b, p2, _, L2, ⟨rfl, hb⟩, hchain, rfl⟩, rfl⟩
        exact .elseIfArm hv hb hchain
      · have harms := fun b => lowerArms_lowers (chain.close b) true arms hrest hr.2.2
        rw [lowerArms_plain]
        refine (hbody.block.bind fun b => harms b).mono ?_
        rintro t p q L chain' ⟨b, p1, _, L1, ⟨rfl, hb⟩, hchain, rfl⟩
        exact .plainArm hb hchain

theorem lowerBody_lowers (b : BlockId) : (ss : List Stmt) → areCompleteStmts ss = true →
    RecordedStmts c.tree ss →
    Fills b (lowerBody c b ss) fun t p q L v => LowersStmts c t ss p q L v
  | [], _, _ => by
    rw [lowerBody]
    refine (fills_nil b).mono ?_
    rintro t p q L v ⟨rfl, rfl, rfl⟩
    exact .noStmts
  | s :: ss, h, hr => by
    replace h := and_eq_true_iff.1 h
    have hs := lowerStmt_lowers s h.1 hr.1
    have hss := lowerBody_lowers b ss h.2 hr.2
    by_cases htail : ∃ n e, ss = [] ∧ s = .expr n e false
    · obtain ⟨n, e, rfl, rfl⟩ := htail
      rw [lowerBody]
      exact (fills_setTail (hs.tail n e rfl)).mono fun _ _ _ _ _ hv => .tailStmt hv
    · rw [lowerBody]
      · refine (fills_cons hs.line hss).mono ?_
        rintro t p q L v ⟨_, p1, L1, L2, hL1, hL2, rfl⟩
        exact .consStmts (fun n e hnil hs => htail ⟨n, e, hnil, hs⟩) hL1 hL2
      · exact fun n e hs hnil => htail ⟨n, e, hnil, hs⟩

theorem lowerStmt_lowers : (s : Stmt) → isCompleteStmt s = true → RecordedStmt c.tree s →
    StmtLowers c s
  | .absent _, h, _ | .lost, h, _ | .bare _ _, h, _ => by cases h
  | .var n name nameSpan type value modifier, h, hr => by
    replace h := and_eq_true_iff.1 h
    have hvalue := useExpr_lowers value h.2 hr.2.2
    refine ⟨?_, nofun, nofun⟩
    rw [lowerStmt]
    refine (builds_lowerVar h.1 hvalue.value).discard.mono ?_
    rintro t p q L _ ⟨_, p1, L1, v, i, hv, hi, hlocal, hline, rfl, rfl, rfl⟩
    exact .var hv hi hlocal hline
  | .assign n target value, h, hr => by
    replace h := and_eq_true_iff.1 h
    have htarget := useExpr_lowers target (orComplete h.1) hr.1
    have hvalue := useExpr_lowers value (orComplete h.2) hr.2
    refine ⟨?_, nofun, nofun⟩
    rw [lowerStmt]
    exact builds_lowerAssign (node_of_complete h.1) htarget hvalue.value
  | .func n name nameSpan params result body modifier, h, hr => by
    replace h : (params.all (fun p => p.type.isComplete) = true ∧
        (result.isMissing || result.isComplete) = true) ∧
        (body.isMissing || isCompleteExpr body) = true := by
      simpa [isCompleteStmt] using h
    have hbody := lowersBody_of h.2 (useExpr_lowers body h.2 hr.2.2.2)
    have hfunc : ∀ owner, Builds (funcOf c owner n name params result body) fun t p q L _ =>
        L = [] ∧ LowersFunc c t owner n name params result body p q :=
      fun owner => builds_lowerFunc (hr.1.elim fun _ h => Option.isSome_of_eq_some h.1) h.1.1
        h.1.2 hbody
    refine ⟨?_, nofun, ?_⟩
    · rw [lowerStmt]
      have hdiscard : Builds (discard (funcOf c 0 n name params result body)) fun t p q L _ =>
          L = [] ∧ LowersFunc c t 0 n name params result body p q :=
        (hfunc 0).discard.mono fun _ _ _ _ _ ⟨_, h⟩ => h
      refine (builds_inGlobals hdiscard).mono ?_
      rintro t p q L _ ⟨rfl, hfunc⟩
      exact .func hfunc
    · rintro _ _ _ _ _ _ _ ⟨⟩
      exact hfunc
  | .typeDecl n kind name nameSpan fields variants methods, h, hr => by
    replace h : (fields.all (fun m => m.type.isComplete) = true ∧
        variants.all (fun m => m.type.isMissing || m.type.isComplete) = true) ∧
        areCompleteStmts methods = true := by
      simpa [isCompleteStmt] using h
    have hmethods := fun owner => lowerMethods_lowers owner methods h.2 hr.2.2
    have hdecl : Builds (lowerTypeDecl c n kind name fields variants _) fun t p q L _ => L = [] ∧
        LowersStmt c t (.typeDecl n kind name nameSpan fields variants methods) p q [] :=
      builds_lowerTypeDecl (hr.1.elim fun _ h => Option.isSome_of_eq_some h.1) h.1.1 h.1.2 hmethods
    refine ⟨?_, nofun, nofun⟩
    rw [lowerStmt]
    refine (builds_inGlobals hdecl).mono ?_
    rintro t p q L _ ⟨rfl, hdecl⟩
    exact hdecl
  | .impl n trait target methods, h, hr => by
    replace h : ((trait.isMissing || trait.isComplete) = true ∧ target.isComplete = true) ∧
        areCompleteStmts methods = true := by
      simpa [isCompleteStmt] using h
    have hmethods := fun owner => lowerMethods_lowers owner methods h.2 hr.2
    refine ⟨?_, nofun, nofun⟩
    rw [lowerStmt]
    refine (builds_inGlobals (builds_lowerImpl h.1.2 hmethods)).mono ?_
    rintro t p q L _ ⟨rfl, himpl⟩
    exact himpl
  | .expr n e semicolon, h, hr => by
    have he := useExpr_lowers e (orComplete h) hr
    refine ⟨?_, ?_, nofun⟩
    · rw [lowerStmt]
      exact builds_valueLine he.value .eval .expr
    · rintro _ _ ⟨⟩
      exact he.value
  | .jump n kind value, h, hr => by
    have hvalue := useExpr_lowers value h hr
    refine ⟨?_, nofun, nofun⟩
    cases kind with
    | return_ =>
      rw [lowerStmt]
      exact builds_valueLine hvalue.value .return_ .return_
    | break_ =>
      rw [lowerStmt]
      exact builds_valueLine hvalue.value .break_ .break_
    | continue_ =>
      have hline := (builds_emit .continue_ n.span).discard
      rw [lowerStmt]
      refine .ite (fun hgiven => ?_) fun hgiven => hline.mono ?_
      · obtain ⟨node, hnode⟩ := Option.isSome_iff_exists.1 (node_of_given h hgiven)
        refine .need_bind hnode (((builds_report _).bind fun _ => hline).mono ?_)
        rintro t p q L _ ⟨_, _, _, _, ⟨rfl, rfl, hfault⟩, ⟨_, rfl, rfl, -, hline⟩, rfl⟩
        exact .continue_ (fun _ => ⟨_, hfault⟩) hline
      · rintro t p q L _ ⟨_, rfl, rfl, -, hline⟩
        exact .continue_ (fun h => absurd h hgiven) hline

theorem lowerMethods_lowers (owner : DeclId) : (ss : List Stmt) → areCompleteStmts ss = true →
    RecordedStmts c.tree ss →
    Builds (lowerMethods c owner ss) fun t p q L _ => L = [] ∧ LowersMethods c t owner ss p q
  | [], _, _ => by
    rw [lowerMethods]
    exact .pure_of fun _ _ => ⟨rfl, .noMethods⟩
  | s :: ss, h, hr => by
    replace h := and_eq_true_iff.1 h
    have hs := lowerStmt_lowers s h.1 hr.1
    have hss := lowerMethods_lowers owner ss h.2 hr.2
    cases s with
    | absent | lost | bare => cases h.1
    | func n name nameSpan params result body modifier =>
      rw [lowerMethods]
      refine ((hs.func n name nameSpan params result body modifier rfl owner).bind fun d =>
        hss.thenPure _).mono ?_
      rintro t p q L _ ⟨d, p1, _, _, ⟨rfl, hfunc⟩, ⟨ds, ⟨rfl, hss⟩, -⟩, rfl⟩
      exact ⟨rfl, .consMethods hfunc hss⟩
    | var | assign | typeDecl | impl | expr | jump =>
      rw [lowerMethods]
      · exact builds_notFunc rfl rfl (by first | decide | exact jump_ne_func _) hss
      all_goals nofun

end

/-! ## Whole units -/

theorem lowerTop_lowers (s : Stmt) (h : isCompleteStmt s = true) (hr : RecordedStmt c.tree s) :
    Builds (lowerTop c s) fun t p q L _ => LowersTop c t s p q L := by
  have hs := lowerStmt_lowers s h hr
  have hrejected : ∀ span message, (hs : s.isDeclaration = false) →
      (∀ n name nameSpan type value modifier, s ≠ .var n name nameSpan type value modifier) →
      Builds (invalidContext span message) fun t p q L _ => LowersTop c t s p q L := by
    intro span message hdecl hvar
    refine (builds_report _).mono ?_
    rintro t p q L _ ⟨rfl, rfl, hf⟩
    exact .rejected hdecl hvar hf
  cases s with
  | absent | lost | bare => cases h
  | var n name nameSpan type value modifier =>
    replace h := and_eq_true_iff.1 h
    have hvalue := useExpr_lowers value h.2 hr.2.2
    refine ((builds_lowerVar h.1 hvalue.value).bind (S := fun x t p q L _ => L = [] ∧
      (x.2.2.isValid = true → HasItem t p (x.2.2,
        ⟨.global, x.2.2, c.name name, n.span, none, none, some ⟨x.1, x.2.1⟩⟩)) ∧
      q = if x.2.2.isValid then p.addItem else p) fun x => .ite (fun hvalid => ?_)
        fun hinvalid => ?_).mono ?_
    · refine (builds_addItem _).discard.mono ?_
      rintro t p q L _ ⟨i, rfl, rfl, -, hitem⟩
      exact ⟨rfl, fun _ => hitem, by rw [if_pos hvalid]⟩
    · exact .pure_of fun _ _ => ⟨rfl, fun hvalid => (hinvalid hvalid).elim, by rw [if_neg hinvalid]⟩
    · rintro t p q L _ ⟨_, _, _, _, ⟨p1, L1, v, i, hv, hi, hlocal, hline, rfl, rfl, rfl⟩,
        ⟨rfl, hitem, rfl⟩, rfl⟩
      rw [append_nil]
      exact .var hv hi hlocal hline hitem
  | func | typeDecl | impl =>
    refine hs.line.mono fun t p q L _ hstmt => ?_
    have hnil : L = [] := by cases hstmt <;> rfl
    subst hnil
    exact .declaration rfl hstmt
  | assign | expr | jump => exact hrejected _ _ rfl nofun

theorem lowerProgram_lowers (ss : List Stmt) (h : areCompleteStmts ss = true)
    (hr : RecordedStmts c.tree ss) :
    Builds (lowerProgram c ss) fun t p q L _ => LowersProgram c t ss p q L := by
  induction ss with
  | nil => exact .pure_of fun _ _ => .nil
  | cons s ss ih =>
    replace h := and_eq_true_iff.1 h
    refine ((lowerTop_lowers s h.1 hr.1).bind fun _ => ih h.2 hr.2).mono ?_
    rintro t p q L _ ⟨_, p1, L1, L2, hs, hss, rfl⟩
    exact .cons hs hss

theorem LowersValue.isValid {t : State} {p q : Pos} {L : List LineId} {v : ValueId}
    (h : LowersValue c t e p q L v) (hcomplete : isCompleteExpr e = true) : v.isValid = true := by
  cases h with
  | absent => cases hcomplete
  | _ => rfl

def Pos.start : Pos := ⟨0, 0, 0, 0, 0⟩

def State.initial : State := ⟨.empty .initial, none, [[]], [], 0, #[], #[]⟩

theorem ready_initial : Ready .initial :=
  ⟨⟨rfl, rfl, rfl, rfl, rfl, rfl, rfl, rfl, .nil, fun _ => .rfl⟩, TypeTable.initial_wellFormed,
    ⟨_, rfl⟩, nofun, nofun⟩

/-- A complete unit is lowered, and what it becomes follows the rules, in a state with the module
and the faults that lowering gives. -/
theorem lower_follows {tree : Tree} {decls : Decls} (h : areCompleteStmts tree.program = true) :
    ∃ t : State, lower tree decls = .ok ⟨t.module, t.faults.toList, t.arrays.toList⟩ ∧
      lowerProgram ⟨tree, decls⟩ tree.program .initial = .ok () t ∧ Ready t ∧
      Ran .initial t t.module.globals ∧
      LowersProgram ⟨tree, decls⟩ t tree.program .start t.pos t.module.globals := by
  obtain ⟨_, t, hrun, ht, L, hran, hx⟩ :=
    lowerProgram_lowers (c := ⟨tree, decls⟩) tree.program h (recorded_program tree) _ ready_initial
  have hglobals : t.module.globals = L := by
    have hcurrent := hran.current rfl
    rw [State.current?, hran.body] at hcurrent
    exact congrArg Block.lines (Option.some.inj hcurrent)
  subst hglobals
  refine ⟨t, ?_, hrun, ht, hran, hx t (.now _ _)⟩
  rw [State.initial] at hrun
  unfold lower
  simp only [hrun]

end UnitCheck.Lowering
