import UnitCheck.Proofs.Code.Calls
import UnitCheck.Proofs.Lowering.Rules
import UnitCheck.Proofs.Syntax.Calls

/-!
# The calls of what is lowered

Running lowered code makes the calls of the program in the order of `CallOrder`: the lines that an
expression appended make those ahead of it, and its value makes those within it.
-/

namespace UnitCheck.Lowering

open Code List Syntax

def callSite (c : Context) (n : ExprNode) : CallSite := ⟨n.span, callCandidates c n⟩

variable {c : Context} {t : State} {p : Pos} {span : Span} {made : Bool} {ns ns' : List ExprNode}

/-! ## What the rules made -/

variable {x : Value} {L : List LineId} {e : Expr} {q : Pos}

theorem HasValue.value? (h : HasValue t p x span) : t.module.value? p.value = some x :=
  (if_pos rfl).trans h.1

theorem HasValue.valueSpan (h : HasValue t p x span) : t.module.valueSpan p.value = span := by
  rw [Module.valueSpan, Pos.value, h.2]
  rfl

theorem HasValue.calls {xs : List CallSite} (h : HasValue t p x span)
    (hx : x.calls span = []) (hxs : t.module.Calls (t.module.operandsOf x) xs) :
    t.module.Calls [p.value] xs := by
  have hone := Module.Calls.one h.value? h.valueSpan hxs
  rwa [hx, append_nil] at hone

theorem HasLine.line? {x : Line} (h : HasLine t p x span made) : t.module.line? p.line = some x :=
  (if_pos rfl).trans h.1

theorem HasLine.lineOperands {x : Line} (h : HasLine t p x span made) :
    t.module.lineOperands [p.line] = x.operands := by
  rw [Module.lineOperands, flatMap_singleton, h.line?]
  rfl

theorem HasBlock.block? {x : Block} (h : HasBlock t p x span) : t.module.block? p.block = some x :=
  (if_pos rfl).trans h.1

theorem HasBlock.blockOperands {x : Block} (h : HasBlock t p x span) :
    t.module.blockOperands p.block = t.module.lineOperands x.lines ++ [x.tail] := by
  rw [Module.blockOperands, h.block?]
  rfl

theorem HasLocal.local? {x : Local} (h : HasLocal t p x span) : t.module.local? p.slot = some x :=
  (if_pos rfl).trans h.1

/-! ## Calls -/

def LineCalls (c : Context) (t : State) (L : List LineId) (ns : List ExprNode) : Prop :=
  t.module.Calls (t.module.lineOperands L) (ns.map (callSite c))

theorem LineCalls.nil : LineCalls c t [] [] := Module.Calls.nil

theorem LineCalls.append {L' : List LineId} (h : LineCalls c t L ns)
    (h' : LineCalls c t L' ns') : LineCalls c t (L ++ L') (ns ++ ns') := by
  rw [LineCalls, Module.lineOperands_append, map_append]
  exact .append h h'

def ValueCalls (c : Context) (t : State) (vs : List ValueId) (ns : List ExprNode) : Prop :=
  t.module.Calls vs (ns.map (callSite c))

theorem ValueCalls.append {vs vs' : List ValueId} (h : ValueCalls c t vs ns)
    (h' : ValueCalls c t vs' ns') : ValueCalls c t (vs ++ vs') (ns ++ ns') := by
  rw [ValueCalls, map_append]
  exact .append h h'

theorem ValueCalls.nil : ValueCalls c t [] [] := Module.Calls.nil

theorem LineCalls.snoc {x : Line}
    (h : LineCalls c t L ns) (hline : HasLine t p x span made)
    (h' : ValueCalls c t x.operands ns') : LineCalls c t (L ++ [p.line]) (ns ++ ns') := by
  refine h.append ?_
  rw [LineCalls, hline.lineOperands]
  exact h'

/-- The calls that are made as a judgement says. Arms of a closed chain are dropped. -/
def Judgement.Calls (c : Context) (t : State) : Judgement → Prop
  | .value e _ _ L v =>
    LineCalls c t L (callsExpr e).ahead ∧ ValueCalls c t [v] (callsExpr e).within
  | .place e _ _ L x =>
    LineCalls c t L (callsExpr e).ahead ∧ ValueCalls c t x.operands (callsExpr e).within
  | .placed e _ _ L x => LineCalls c t L (CallOrder.placed e (callsExpr e)).ahead ∧
      ValueCalls c t x.operands (CallOrder.placed e (callsExpr e)).within
  | .body e _ _ b => ValueCalls c t (t.module.blockOperands b) (callsExpr e).all
  | .args es _ _ L vs =>
    LineCalls c t L (callsExprs es).ahead ∧ ValueCalls c t vs (callsExprs es).within
  | .elems _ _ es _ _ L => LineCalls c t L (callsElems es)
  | .arms chain true _ _ _ L chain' => L = [] ∧ chain' = chain
  | .arms chain false rest _ _ L chain' => chain.isOpen = true →
      LineCalls c t L (callsArms rest).ahead ∧ ∃ branches,
        chain'.branches = chain.branches ++ branches ∧
        ValueCalls c t (t.module.branchOperands branches) (callsArms rest).within
  | .stmts ss _ _ L tail => ValueCalls c t (t.module.lineOperands L ++ [tail]) (callsStmts ss)
  | .stmt s _ _ L => LineCalls c t L (callsStmt s)
  | .func .. | .methods .. => True

theorem LowersPlace.placed_eq {x : Place}
    (h : LowersPlace c t e p q L x) : CallOrder.placed e (callsExpr e) = callsExpr e := by
  cases h with
  | slotPlace => rfl
  | derefPlace | indexPlace | fieldPlace => rfl

theorem LowersPlace.target_eq {x : Place}
    (h : LowersPlace c t e p q L x) :
    (if e.isProjection then callsExpr e else .none) = callsExpr e := by
  cases h with
  | slotPlace => rfl
  | derefPlace | indexPlace | fieldPlace => rfl

theorem ValueCalls.branch {v : ValueId} {b : BlockId}
    (hv : ValueCalls c t [v] ns) (hb : ValueCalls c t (t.module.blockOperands b) ns') :
    ValueCalls c t (t.module.branchOperands [(v, b)]) (ns ++ ns') := by
  rw [Module.branchOperands, flatMap_singleton]
  exact hv.append hb

theorem Lowers.calls {j : Judgement} (h : Lowers c t j) : j.Calls c t := by
  induction h with
  | absent => exact ⟨.nil, .zero⟩
  | ident hname hv =>
    refine ⟨.nil, hv.calls ?_ ?_⟩
    all_goals cases hname <;> first | rfl | exact .nil
  | literal hv => exact ⟨.nil, hv.calls rfl .nil⟩
  | binary _ _ hv ihl ihr => exact ⟨ihl.1.append ihr.1, hv.calls rfl (ihl.2.append ihr.2)⟩
  | unary _ hv ih | cast _ _ hv ih | ref _ hv ih | deref _ hv ih | index _ hv ih | field _ hv ih =>
    exact ⟨ih.1, hv.calls rfl ih.2⟩
  | call _ _ hv ihf ihargs =>
    refine ⟨?_, ?_⟩
    · show LineCalls c t _ (_ ++ _ ++ [])
      rw [append_nil]
      exact ihf.1.append ihargs.1
    · show t.module.Calls _ (.map _ (_ ++ [_]))
      rw [map_append]
      exact .one hv.value? hv.valueSpan (ihf.2.append ihargs.2)
  | array _ _ _ halloc hline _ hv ih =>
    have halloc' : ValueCalls c t [_] [] := halloc.calls rfl .nil
    have hbind := LineCalls.nil.snoc hline halloc'
    exact ⟨hbind.append ih, hv.calls rfl .nil⟩
  | block _ hv ih => exact ⟨.nil, hv.calls rfl ih⟩
  | ifElse _ _ _ hv ihcond ihbody iharms =>
    obtain ⟨hahead, branches, hbranches, hwithin⟩ := iharms rfl
    refine ⟨?_, hv.calls rfl ?_⟩
    · show LineCalls c t _ (_ ++ [] ++ _)
      rw [append_nil]
      exact ihcond.1.append hahead
    · show t.module.Calls (t.module.branchOperands (Chain.branches _)) _
      rw [hbranches, Module.branchOperands_append]
      exact (ihcond.2.branch ihbody).append hwithin
  | whileLoop _ _ hv ih ihbody | forLoop _ _ _ _ hv ih ihbody =>
    refine ⟨?_, hv.calls rfl (ih.2.append ihbody)⟩
    show LineCalls c t _ (_ ++ [])
    rw [append_nil]
    exact ih.1
  | slotPlace | noArgs => exact ⟨.nil, .nil⟩
  | derefPlace _ ih | fieldPlace _ ih | closedArm _ _ ih => exact ih
  | indexPlace _ _ ih ihs | consArgs _ _ ih ihs => exact ⟨ih.1.append ihs.1, ih.2.append ihs.2⟩
  | placed h ih =>
    rw [Judgement.Calls, LowersPlace.placed_eq h]
    exact ih
  | spilled hproj _ _ hline ih =>
    rw [Judgement.Calls, CallOrder.placed, hproj]
    exact ⟨ih.1.snoc hline ih.2, .nil⟩
  | noBody | noElems | func | undeclared | typeDecl | impl => exact .nil
  | blockBody hblock _ ih =>
    rw [Judgement.Calls, hblock.blockOperands]
    exact ih
  | valueBody _ _ hblock _ ih =>
    rw [Judgement.Calls, hblock.blockOperands]
    exact .append ih.1 ih.2
  | consElems _ hindex hline _ ih ihs =>
    rw [Judgement.Calls]
    have hindex' : ValueCalls c t [_] [] := hindex.calls rfl .nil
    have hoperands := hindex'.append ih.2
    have hstore := ih.1.snoc hline hoperands
    rw [← singleton_append, ← append_assoc]
    exact hstore.append ihs
  | @noArms _ closed =>
    cases closed with
    | true => exact ⟨rfl, rfl⟩
    | false => exact fun _ => ⟨.nil, [], (append_nil _).symm, .nil⟩
  | @plainArm chain chain' _ _ _ _ _ _ _ _ b _ _ ihbody iharms =>
    intro hopen
    obtain ⟨rfl, rfl⟩ := iharms
    refine ⟨.nil, [(0, b)], chain.branches_close b hopen, ?_⟩
    have hnone : ValueCalls c t [0] [] := .zero
    exact hnone.branch ihbody
  | @elseIfArm chain _ _ _ _ _ _ _ _ _ _ _ v b _ _ _ ihcond ihbody iharms =>
    intro hopen
    obtain ⟨hahead, branches, hbranches, hwithin⟩ := iharms (chain.isOpen_snoc v b hopen)
    refine ⟨?_, [(v, b)] ++ branches, ?_, ?_⟩
    · show LineCalls c t _ (_ ++ [] ++ _)
      rw [append_nil]
      exact ihcond.1.append hahead
    · rw [hbranches, chain.branches_snoc v b hopen, append_assoc]
    · rw [Module.branchOperands_append]
      exact (ihcond.2.branch ihbody).append hwithin
  | noStmts => exact .zero
  | tailStmt _ ih =>
    rw [Judgement.Calls, callsStmts, callsStmts, append_nil]
    exact .append ih.1 ih.2
  | consStmts _ _ _ ih ihs =>
    rw [Judgement.Calls, Module.lineOperands_append, append_assoc]
    exact .append ih ihs
  | assign hplace _ hline ihtarget ihvalue =>
    rw [Judgement.Calls, callsStmt, LowersPlace.target_eq hplace]
    exact (ihtarget.1.append ihvalue.1).snoc hline (ihtarget.2.append ihvalue.2)
  | unassigned hno _ hline ih =>
    rw [Judgement.Calls, callsStmt, if_neg (by rw [hno.isProjection]; decide)]
    exact ih.1.snoc hline ih.2
  | var _ _ _ hline ih | expr _ hline ih | return_ _ hline ih | break_ _ hline ih =>
    exact ih.1.snoc hline ih.2
  | continue_ _ hline => exact LineCalls.nil.snoc hline .nil
  | function | noMethods | consMethods | skipMethod => exact trivial

end UnitCheck.Lowering
