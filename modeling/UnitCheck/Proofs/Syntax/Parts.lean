import UnitCheck.Proofs.Syntax.Complete

/-!
# The parts of a program that are lowered

Almost everything in a program is lowered. Left out, each time with a fault, are arms behind a plain
`else`, targets of assignments that are no places, values of `continue`, and statements that may not
stand in the body of a type or at the top of a unit.

`Part` are the constructs inside of all the rest that later statements are about: functions, blocks,
and the expressions that may run a part of themselves never or many times.
-/

namespace UnitCheck.Syntax

/-- A function with its body, a block, or an expression with several operands or branches. -/
inductive Part
  | func (n : StmtNode) (body : Expr)
  | block (n : ExprNode) (stmts : List Stmt)
  | expr (e : Expr)

mutual

def partsExpr : Expr → List Part
  | .absent _ | .lost | .bare _ _ | .ident _ _ | .literal _ _ _ => []
  | .binary n op left right =>
    .expr (.binary n op left right) :: (partsExpr left ++ partsExpr right)
  | .unary _ _ e | .cast _ e _ | .ref _ _ e | .deref _ e | .field _ e _ => partsExpr e
  | .call _ callee args => partsExpr callee ++ partsExprs args
  | .index _ target index => partsExpr target ++ partsExpr index
  | .array _ elems _ => partsExprs elems
  | .block n stmts => .block n stmts :: partsStmts stmts
  | .ifElse n cond body arms =>
    .expr (.ifElse n cond body arms) :: (partsExpr cond ++ partsExpr body ++ partsArms arms)
  | .whileLoop n cond body =>
    .expr (.whileLoop n cond body) :: (partsExpr cond ++ partsExpr body)
  | .forLoop _ _ _ iter body => partsExpr iter ++ partsExpr body

def partsExprs : List Expr → List Part
  | [] => []
  | e :: es => partsExpr e ++ partsExprs es

def partsArms : List Arm → List Part
  | [] => []
  | .mk kind cond body _ :: arms =>
    if kind = .plain then partsExpr body
    else partsExpr cond ++ partsExpr body ++ partsArms arms

def partsStmt : Stmt → List Part
  | .absent _ | .lost | .bare _ _ | .jump _ .continue_ _ => []
  | .var _ _ _ _ value _ => partsExpr value
  | .assign _ target value =>
    (if target.isProjection then partsExpr target else []) ++ partsExpr value
  | .func n _ _ _ _ body _ => .func n body :: partsExpr body
  | .typeDecl _ _ _ _ _ _ methods | .impl _ _ _ methods => partsMethods methods
  | .expr _ e _ => partsExpr e
  | .jump _ .return_ value | .jump _ .break_ value => partsExpr value

def partsStmts : List Stmt → List Part
  | [] => []
  | s :: ss => partsStmt s ++ partsStmts ss

def partsMethods : List Stmt → List Part
  | [] => []
  | s :: ss =>
    (match s with
      | .func n _ _ _ _ body _ => .func n body :: partsExpr body
      | _ => []) ++ partsMethods ss

end

/-- The parts of a statement at the top of a unit, where only declarations may stand. -/
def partsTop : Stmt → List Part
  | .var _ _ _ _ value _ => partsExpr value
  | s => if s.isDeclaration then partsStmt s else []

def partsProgram (ss : List Stmt) : List Part := ss.flatMap partsTop

end UnitCheck.Syntax
