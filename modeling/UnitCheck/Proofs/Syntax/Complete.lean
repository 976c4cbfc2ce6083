import UnitCheck.Syntax.Program
import Mathlib.Tactic.Common

/-!
# Complete programs

A program is complete if all of it is there: every node has a form, every kind and operator is one
of those that the language has, and only such parts are left out as may be left out (the type or the
value of a variable, the result or the body of a function, the condition of a loop and so on). An
array literal has fewer elements than an array can have; more nodes than that cannot be numbered.

The passes read the records of nodes once more. That these are there needs no assumption: a node has
a form only because its record was found (`recorded_program`).
-/

namespace UnitCheck.Syntax

open List

/-! ## Completeness -/

namespace TypeExpr

def isMissing : TypeExpr → Bool
  | absent i => !i.isValid
  | _ => false

def isComplete : TypeExpr → Bool
  | absent _ | lost | unknown _ _ => false
  | name _ _ => true
  | array _ elem _ | ref _ elem _ | pointer _ elem | optional _ elem => elem.isComplete

end TypeExpr

def Expr.isMissing : Expr → Bool
  | .absent i => !i.isValid
  | _ => false

/-- Whether an expression is a place by its form alone. A name is a place only if it has a slot. -/
def Expr.isProjection : Expr → Bool
  | .deref _ _ | .index _ _ _ | .field _ _ _ => true
  | _ => false

/-- Whether a statement declares a function, a type or an implementation. -/
def Stmt.isDeclaration : Stmt → Bool
  | .func .. | .typeDecl .. | .impl .. => true
  | _ => false

def LiteralKind.isDeclared (k : LiteralKind) : Bool := 1 ≤ k.code && k.code ≤ 7

def UnaryOp.isDeclared (op : UnaryOp) : Bool := op = .neg || op = .not

mutual

def isCompleteExpr : Expr → Bool
  | .absent _ | .lost | .bare _ _ => false
  | .ident _ _ => true
  | .literal _ kind _ => kind.isDeclared
  | .binary _ _ left right => isCompleteExpr left && isCompleteExpr right
  | .unary _ op operand => op.isDeclared && isCompleteExpr operand
  | .ref _ _ value | .deref _ value => isCompleteExpr value
  | .call _ callee args => isCompleteExpr callee && areCompleteExprs args
  | .index _ target index => isCompleteExpr target && isCompleteExpr index
  | .field _ target _ => isCompleteExpr target
  | .array _ elems elemType => areCompleteExprs elems &&
      (elemType.isMissing || elemType.isComplete) && elems.length < UInt32.size
  | .cast _ value type => isCompleteExpr value && type.isComplete
  | .block _ stmts => areCompleteStmts stmts
  | .ifElse _ cond body arms =>
    isCompleteExpr cond && isCompleteExpr body && areCompleteArms arms
  | .whileLoop _ cond body => (cond.isMissing || isCompleteExpr cond) && isCompleteExpr body
  | .forLoop _ _ _ iter body => isCompleteExpr iter && isCompleteExpr body

def areCompleteExprs : List Expr → Bool
  | [] => true
  | e :: es => isCompleteExpr e && areCompleteExprs es

/-- A plain `else` has no condition. -/
def areCompleteArms : List Arm → Bool
  | [] => true
  | .mk kind cond body _ :: arms =>
    (kind = .elseIf && isCompleteExpr cond || kind = .plain && cond.isMissing) &&
      isCompleteExpr body && areCompleteArms arms

def isCompleteStmt : Stmt → Bool
  | .absent _ | .lost | .bare _ _ => false
  | .var _ _ _ type value _ =>
    (type.isMissing || type.isComplete) && (value.isMissing || isCompleteExpr value)
  | .assign _ target value => isCompleteExpr target && isCompleteExpr value
  | .func _ _ _ params result body _ =>
    params.all (fun p => p.type.isComplete) && (result.isMissing || result.isComplete) &&
      (body.isMissing || isCompleteExpr body)
  | .typeDecl _ _ _ _ fields variants methods =>
    fields.all (fun m => m.type.isComplete) &&
      variants.all (fun m => m.type.isMissing || m.type.isComplete) && areCompleteStmts methods
  | .impl _ trait target methods =>
    (trait.isMissing || trait.isComplete) && target.isComplete && areCompleteStmts methods
  | .expr _ e _ => isCompleteExpr e
  | .jump _ _ value => value.isMissing || isCompleteExpr value

def areCompleteStmts : List Stmt → Bool
  | [] => true
  | s :: ss => isCompleteStmt s && areCompleteStmts ss

end

/-! ## Records -/

/-- The records of a type and of the types in it say whether they are names. -/
def TypeExpr.Recorded (t : Tree) : TypeExpr → Prop
  | absent _ | lost => True
  | name n _ => (t.type? n.id).map TypeRecord.kind = some .name
  | array n elem _ | ref n elem _ | pointer n elem | optional n elem | unknown n elem =>
    (t.type? n.id).map TypeRecord.kind ≠ some .name ∧ elem.Recorded t

mutual

def RecordedExpr (t : Tree) : Expr → Prop
  | .absent _ | .lost | .bare _ _ | .literal _ _ _ => True
  | .ident n _ => (t.exprs.idents.get? n.record.index).isSome
  | .binary _ _ left right => RecordedExpr t left ∧ RecordedExpr t right
  | .unary _ _ e | .ref _ _ e | .deref _ e | .field _ e _ => RecordedExpr t e
  | .cast _ e type => RecordedExpr t e ∧ type.Recorded t
  | .call n callee args =>
    (t.exprs.calls.get? n.record.index).isSome ∧ RecordedExpr t callee ∧ RecordedExprs t args
  | .index _ target index => RecordedExpr t target ∧ RecordedExpr t index
  | .array _ elems elemType => RecordedExprs t elems ∧ elemType.Recorded t
  | .block n stmts => (t.exprs.blocks.get? n.record.index).isSome ∧ RecordedStmts t stmts
  | .ifElse _ cond body arms => RecordedExpr t cond ∧ RecordedExpr t body ∧ RecordedArms t arms
  | .whileLoop _ cond body => RecordedExpr t cond ∧ RecordedExpr t body
  | .forLoop n _ _ iter body =>
    (t.exprs.fors.get? n.record.index).isSome ∧ RecordedExpr t iter ∧ RecordedExpr t body

def RecordedExprs (t : Tree) : List Expr → Prop
  | [] => True
  | e :: es => RecordedExpr t e ∧ RecordedExprs t es

def RecordedArms (t : Tree) : List Arm → Prop
  | [] => True
  | .mk _ cond body _ :: arms => RecordedExpr t cond ∧ RecordedExpr t body ∧ RecordedArms t arms

/-- The record of everything in a statement is there, with as many members as the statement has. -/
def RecordedStmt (t : Tree) : Stmt → Prop
  | .absent _ | .lost | .bare _ _ => True
  | .var n _ _ type value _ =>
    (t.stmts.vars.get? n.record.index).isSome ∧ type.Recorded t ∧ RecordedExpr t value
  | .assign _ target value => RecordedExpr t target ∧ RecordedExpr t value
  | .func n _ _ params result body _ =>
    (∃ r, t.stmts.funcs.get? n.record.index = some r ∧ (r.params.getD []).length = params.length) ∧
      (∀ p ∈ params, p.type.Recorded t) ∧ result.Recorded t ∧ RecordedExpr t body
  | .typeDecl n _ _ _ fields variants methods =>
    (∃ r, t.stmts.typeDecls.get? n.record.index = some r ∧
        (r.fields.getD []).length = fields.length ∧ (r.variants.getD []).length = variants.length) ∧
      (∀ m ∈ fields ++ variants, m.type.Recorded t) ∧ RecordedStmts t methods
  | .impl n trait target methods =>
    (∃ r, t.stmts.impls.get? n.record.index = some r ∧ trait = t.typeExpr r.trait ∧
        target = t.typeExpr r.target ∧ t.stmt? n.id = some ⟨.impl, n.span, n.record⟩) ∧
      RecordedStmts t methods
  | .expr _ e _ => RecordedExpr t e
  | .jump _ _ value => RecordedExpr t value

def RecordedStmts (t : Tree) : List Stmt → Prop
  | [] => True
  | s :: ss => RecordedStmt t s ∧ RecordedStmts t ss

end

variable {t : Tree}

theorem recordedExprs_of {es : List Expr} (h : ∀ e ∈ es, RecordedExpr t e) :
    RecordedExprs t es := by
  induction es with
  | nil => exact trivial
  | cons e es ih => exact ⟨h e mem_cons_self, ih fun e he => h e (mem_cons_of_mem _ he)⟩

theorem recordedStmts_of {ss : List Stmt} (h : ∀ s ∈ ss, RecordedStmt t s) :
    RecordedStmts t ss := by
  induction ss with
  | nil => exact trivial
  | cons s ss ih => exact ⟨h s mem_cons_self, ih fun s hs => h s (mem_cons_of_mem _ hs)⟩

theorem recordedArms_of {e : ExprId → Expr} (h : ∀ i, RecordedExpr t (e i))
    (arms : List ArmRecord) :
    RecordedArms t (arms.map fun a => .mk a.kind (e a.cond) (e a.body) a.span) := by
  induction arms with
  | nil => exact trivial
  | cons a arms ih => exact ⟨h a.cond, h a.body, ih⟩

theorem form_of_record {α β : Type} {P : β → Prop} {found : Option α} {form : α → β} {bare : β}
    (hbare : P bare) (hform : ∀ r, found = some r → P (form r)) :
    P ((found.map form).getD bare) := by
  cases found with
  | none => exact hbare
  | some r => exact hform r rfl

theorem recorded_typeAt (depth : Nat) (i : TypeExprId) : (t.typeAt depth i).Recorded t := by
  induction depth generalizing i with
  | zero => exact trivial
  | succ depth ih =>
    unfold Tree.typeAt
    cases hget : t.type? i with
    | none =>
      simp only
      split <;> exact trivial
    | some r =>
      simp only
      split
      next hkind =>
        show (t.type? i).map TypeRecord.kind = _
        rw [hget]
        exact congrArg some hkind
      all_goals exact ⟨by simp_all [TypeExprKind.name], ih _⟩

/-- A type is there under the identifier that it was reached by, or there is none with that
identifier. -/
theorem typeExpr_cases (t : Tree) (i : TypeExprId) :
    t.type? i = none ∧ (t.typeExpr i = .absent i ∨ t.typeExpr i = .lost) ∨
      ∃ r, t.type? i = some r ∧ (t.typeExpr i).node? = some ⟨i, r.span, r.modifier⟩ ∧
        (t.typeExpr i).id = i ∧
          (r.kind = .name → t.typeExpr i = .name ⟨i, r.span, r.modifier⟩ r.name) := by
  unfold Tree.typeExpr Tree.typeAt
  cases t.type? i with
  | none =>
    simp only
    split <;> simp
  | some r =>
    simp only
    split <;> exact .inr ⟨r, rfl, rfl, rfl, by simp_all [TypeExprKind.name]⟩

/-- Everything that is unfolded from a tree has its records there, by induction on the depth. -/
theorem recorded_at (t : Tree) (depth : Nat) :
    (∀ i, RecordedExpr t (t.exprAt depth i)) ∧ ∀ i, RecordedStmt t (t.stmtAt depth i) := by
  induction depth with
  | zero => exact ⟨fun _ => trivial, fun _ => trivial⟩
  | succ depth ih =>
    obtain ⟨expr, stmt⟩ := ih
    have exprs : ∀ ids : List ExprId, RecordedExprs t (ids.map (t.exprAt depth)) := by
      intro ids
      refine recordedExprs_of fun e he => ?_
      obtain ⟨i, -, rfl⟩ := mem_map.1 he
      exact expr i
    have stmts : ∀ ids : List StmtId, RecordedStmts t (ids.map (t.stmtAt depth)) := by
      intro ids
      refine recordedStmts_of fun s hs => ?_
      obtain ⟨i, -, rfl⟩ := mem_map.1 hs
      exact stmt i
    have type (i : TypeExprId) : (t.typeExpr i).Recorded t := recorded_typeAt _ i
    constructor
    · intro i
      unfold Tree.exprAt
      cases t.expr? i with
      | none =>
        simp only
        split <;> exact trivial
      | some h =>
        simp only
        split <;> try refine form_of_record trivial fun r hr => ?_
        · simp [RecordedExpr, hr]
        · exact trivial
        · exact ⟨expr r.left, expr r.right⟩
        · exact expr r.operand
        · exact expr r.value
        · exact expr r.value
        · exact ⟨by simp [hr], expr r.callee, exprs _⟩
        · exact ⟨expr r.target, expr r.index⟩
        · exact expr r.target
        · exact ⟨exprs _, type _⟩
        · exact ⟨expr r.value, type _⟩
        · exact ⟨by simp [hr], stmts _⟩
        · exact ⟨expr r.cond, expr r.body, recordedArms_of expr _⟩
        · exact ⟨expr r.cond, expr r.body⟩
        · exact ⟨by simp [hr], expr r.iter, expr r.body⟩
        · exact trivial
    · intro i
      unfold Tree.stmtAt
      cases hheader : t.stmt? i with
      | none =>
        simp only
        split <;> exact trivial
      | some h =>
        simp only
        split <;> try refine form_of_record trivial fun r hr => ?_
        · exact ⟨by simp [hr], type _, expr r.value⟩
        · exact ⟨expr r.target, expr r.value⟩
        · refine ⟨⟨r, hr, by simp⟩, fun p hp => ?_, type _, expr r.body⟩
          obtain ⟨p, -, rfl⟩ := mem_map.1 hp
          exact type p.type
        · refine ⟨⟨r, hr, by simp, by simp⟩, fun m hm => ?_, stmts _⟩
          rw [← map_append] at hm
          obtain ⟨m, -, rfl⟩ := mem_map.1 hm
          exact type m.type
        · next hkind =>
          exact ⟨⟨r, hr, rfl, rfl, by cases h; cases hkind; exact hheader⟩, stmts _⟩
        · exact expr r.expr
        · exact expr r.value
        · exact expr r.value
        · exact expr r.value
        · exact trivial

theorem recorded_program (t : Tree) : RecordedStmts t t.program := by
  refine recordedStmts_of fun s hs => ?_
  obtain ⟨i, -, rfl⟩ := mem_map.1 hs
  exact (recorded_at t t.depth).2 i

end UnitCheck.Syntax
