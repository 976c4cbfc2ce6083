import UnitCheck.Syntax.Build

/-!
# Trees without a source

Builds trees for which there is no text: every node gets a span of its own in a file that does not
exist, and a node that has parts covers their spans. Spans are handed out two bytes apart, so that
no two of them touch.
-/

namespace UnitCheck.Syntax

structure Sketch where
  tree : Tree
  offset : UInt32

abbrev Layout := StateM Sketch

namespace Layout

def file : UInt32 := 1

def initial : Sketch := ⟨.empty, 0⟩

def build {α : Type} (a : Build α) : Layout α := modifyGet fun s =>
  let (x, tree) := a.run s.tree
  (x, { s with tree })

def next : Layout Span := modifyGet fun s =>
  (⟨file, s.offset, s.offset + 1⟩, { s with offset := s.offset + 2 })

def cover (spans : List Span) : Layout Span := do
  return spans.foldl Span.cover (← next)

def exprSpan (i : ExprId) : Layout Span := do
  return (((← get).tree.expr? i).map Header.span).getD .zero

def stmtSpan (i : StmtId) : Layout Span := do
  return (((← get).tree.stmt? i).map Header.span).getD .zero

def typeSpan (i : TypeExprId) : Layout Span := do
  return (((← get).tree.type? i).map TypeRecord.span).getD .zero

def coverExprs (ids : List ExprId) : Layout Span := do cover (← ids.mapM exprSpan)

def name (t : Text) : Layout NameId := build (Build.name t)

/-- Adds statements at the top of the unit. -/
def root (stmts : List StmtId) : Layout Unit := build (stmts.forM Build.pushRoot)

/-! ### Types -/

def typeName (n : Text) : Layout TypeExprId := do
  let span ← next
  let i ← name n
  build (Build.typeName span i .default)

def arrayType (elem : TypeExprId) (length : UInt32) : Layout TypeExprId := do
  let span ← next
  build (Build.arrayType span elem length .default)

def refType (elem : TypeExprId) (isMut : Bool) : Layout TypeExprId := do
  let span ← next
  build (Build.refType span elem isMut .default)

/-! ### Expressions -/

def ident (n : Text) : Layout ExprId := do
  let span ← next
  let i ← name n
  build (Build.ident span i)

def literal (kind : LiteralKind) (text : Text) : Layout ExprId := do
  let span ← next
  let i ← name text
  build (Build.literal span kind i)

def int (text : Text) : Layout ExprId :=
  literal (if text.startsWith "-" then .int else .uint) text

def float (text : Text) : Layout ExprId := literal .float text

def bool (b : Bool) : Layout ExprId :=
  if b then literal .true_ "true" else literal .false_ "false"

def str (text : Text) : Layout ExprId := literal .string text

def binary (op : BinaryOp) (l r : ExprId) : Layout ExprId := do
  let span ← coverExprs [l, r]
  build (Build.binary span op l r)

def not (e : ExprId) : Layout ExprId := do
  let span ← coverExprs [e]
  build (Build.unary span .not e)

def ref (e : ExprId) (isMut : Bool) : Layout ExprId := do
  let span ← coverExprs [e]
  build (Build.ref span isMut e)

def deref (e : ExprId) : Layout ExprId := do
  let span ← coverExprs [e]
  build (Build.deref span e)

def call (callee : Text) (args : List ExprId) : Layout ExprId := do
  let c ← ident callee
  let span ← coverExprs (args ++ [c])
  build (Build.call span c args)

def index (target i : ExprId) : Layout ExprId := do
  let span ← coverExprs [target, i]
  build (Build.index span target i)

def field (target : ExprId) (n : Text) : Layout ExprId := do
  let span ← coverExprs [target]
  let i ← name n
  build (Build.field span target i)

def cast (value : ExprId) (type : TypeExprId) : Layout ExprId := do
  let span ← coverExprs [value]
  build (Build.cast span value type)

def array (elems : List ExprId) : Layout ExprId := do
  let span ← coverExprs elems
  build (Build.array span 0 elems)

def block (stmts : List StmtId) : Layout ExprId := do
  let span ← cover (← stmts.mapM stmtSpan)
  build (Build.block span stmts)

def elseIf (cond : ExprId) (body : List StmtId) : Layout ArmRecord := do
  let b ← block body
  let span ← coverExprs [cond, b]
  return ⟨.elseIf, cond, b, span⟩

def plainElse (body : List StmtId) : Layout ArmRecord := do
  let b ← block body
  let span ← coverExprs [b]
  return ⟨.plain, 0, b, span⟩

def ifElse (cond body : ExprId) (arms : List ArmRecord) : Layout ExprId := do
  let c ← exprSpan cond
  let b ← exprSpan body
  let span ← cover (c :: b :: arms.map ArmRecord.span)
  build (Build.ifElse span cond body arms)

def whileLoop (cond : ExprId) (body : List StmtId) : Layout ExprId := do
  let b ← block body
  let span ← coverExprs [cond, b]
  build (Build.whileLoop span cond b)

def forLoop (binding : Text) (iter : ExprId) (body : List StmtId) : Layout ExprId := do
  let bindingSpan ← next
  let b ← block body
  let span ← cover [bindingSpan, ← exprSpan iter, ← exprSpan b]
  let i ← name binding
  build (Build.forLoop span i bindingSpan iter b)

/-! ### Statements -/

/-- A variable; its type or its value may be left out. -/
def var (modifier : Modifier) (n : Text) (type : TypeExprId) (value : ExprId) : Layout StmtId := do
  let nameSpan ← next
  let span ← cover [nameSpan, ← exprSpan value]
  let i ← name n
  build (Build.var span nameSpan i type value modifier)

def assign (target value : ExprId) : Layout StmtId := do
  let span ← coverExprs [target, value]
  build (Build.assign span target value)

def exprStmt (e : ExprId) (semicolon : Bool) : Layout StmtId := do
  let span ← coverExprs [e]
  build (Build.exprStmt span e semicolon)

def returnStmt (value : ExprId) : Layout StmtId := do
  let span ← coverExprs [value]
  build (Build.jump .return_ span value)

def breakStmt : Layout StmtId := do
  let span ← next
  build (Build.jump .break_ span 0)

def continueStmt (value : ExprId) : Layout StmtId := do
  let span ← coverExprs [value]
  build (Build.jump .continue_ span value)

def param (n : Text) (type : TypeExprId) : Layout Param := do
  let i ← name n
  let span ← next
  return ⟨i, type, .default, span, 0⟩

def func (n : Text) (params : List Param) (result : TypeExprId) (body : List StmtId) :
    Layout StmtId := do
  let nameSpan ← next
  let b ← block body
  let span ← cover (nameSpan :: (← exprSpan b) :: params.map Param.span)
  let i ← name n
  build (Build.func span nameSpan i params result b .default)

def member (n : Text) (type : TypeExprId) : Layout Member := do
  let i ← name n
  let span ← next
  return ⟨i, type, span, 0⟩

def typeDecl (kind : TypeDeclKind) (n : Text) (fields : List Member) (methods : List StmtId) :
    Layout StmtId := do
  let nameSpan ← next
  let spans ← methods.mapM stmtSpan
  let span ← cover (spans ++ nameSpan :: fields.map Member.span)
  let i ← name n
  build (Build.typeDecl span nameSpan kind i fields [] methods)

def impl (trait target : Text) (methods : List StmtId) : Layout StmtId := do
  let tr ← typeName trait
  let tg ← typeName target
  let spans ← methods.mapM stmtSpan
  let span ← cover (spans ++ [← typeSpan tr, ← typeSpan tg])
  build (Build.impl span tr tg methods)

end Layout

end UnitCheck.Syntax
