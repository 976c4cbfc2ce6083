import UnitCheck.Syntax.Tree

/-!
# Nested programs

The passes do not walk the tables of a tree but the program that they describe: statements and
expressions with their children in place. `Tree.program` unfolds the tables.

Tables may promise what is not there, and the nested forms say so:

* `absent`: no node has the identifier; identifier zero says that none is meant;
* `lost`: the whole table is absent, so not even that can be told;
* `bare`: a node whose record is missing, or whose kind has no form.

A node that is reached twice is unfolded twice. Annotations are not part of the program: passes read
and write them in the records, which nested nodes name.
-/

namespace UnitCheck.Syntax

structure Node (k : IdKind) where
  id : Id k
  span : Span
  record : PayloadId
deriving DecidableEq

abbrev ExprNode := Node .expr
abbrev StmtNode := Node .stmt

structure TypeNode where
  id : TypeExprId
  span : Span
  modifier : Modifier
deriving DecidableEq

inductive TypeExpr
  | absent (id : TypeExprId)
  | lost
  | name (n : TypeNode) (name : NameId)
  | array (n : TypeNode) (elem : TypeExpr) (length : UInt32)
  | ref (n : TypeNode) (elem : TypeExpr) (isMut : Bool)
  | pointer (n : TypeNode) (elem : TypeExpr)
  | optional (n : TypeNode) (elem : TypeExpr)
  | unknown (n : TypeNode) (elem : TypeExpr)

structure ParamForm where
  name : NameId
  type : TypeExpr
  modifier : Modifier
  span : Span

structure MemberForm where
  name : NameId
  type : TypeExpr
  span : Span

inductive Jump
  | return_
  | break_
  | continue_
deriving DecidableEq

mutual

inductive Expr
  | absent (id : ExprId)
  | lost
  | bare (n : ExprNode) (kind : ExprKind)
  | ident (n : ExprNode) (name : NameId)
  | literal (n : ExprNode) (kind : LiteralKind) (value : NameId)
  | binary (n : ExprNode) (op : BinaryOp) (left right : Expr)
  | unary (n : ExprNode) (op : UnaryOp) (operand : Expr)
  | ref (n : ExprNode) (isMut : Bool) (value : Expr)
  | deref (n : ExprNode) (value : Expr)
  | call (n : ExprNode) (callee : Expr) (args : List Expr)
  | index (n : ExprNode) (target index : Expr)
  | field (n : ExprNode) (target : Expr) (field : NameId)
  | array (n : ExprNode) (elems : List Expr) (elemType : TypeExpr)
  | cast (n : ExprNode) (value : Expr) (type : TypeExpr)
  | block (n : ExprNode) (stmts : List Stmt)
  | ifElse (n : ExprNode) (cond body : Expr) (arms : List Arm)
  | whileLoop (n : ExprNode) (cond body : Expr)
  | forLoop (n : ExprNode) (binding : NameId) (bindingSpan : Span) (iter body : Expr)

inductive Stmt
  | absent (id : StmtId)
  | lost
  | bare (n : StmtNode) (kind : StmtKind)
  | var (n : StmtNode) (name : NameId) (nameSpan : Span) (type : TypeExpr) (value : Expr)
      (modifier : Modifier)
  | assign (n : StmtNode) (target value : Expr)
  | func (n : StmtNode) (name : NameId) (nameSpan : Span) (params : List ParamForm)
      (result : TypeExpr) (body : Expr) (modifier : Modifier)
  | typeDecl (n : StmtNode) (kind : TypeDeclKind) (name : NameId) (nameSpan : Span)
      (fields variants : List MemberForm) (methods : List Stmt)
  | impl (n : StmtNode) (trait target : TypeExpr) (methods : List Stmt)
  | expr (n : StmtNode) (expr : Expr) (semicolon : Bool)
  | jump (n : StmtNode) (kind : Jump) (value : Expr)

inductive Arm
  | mk (kind : ArmKind) (cond body : Expr) (span : Span)

end

namespace TypeExpr

def node? : TypeExpr → Option TypeNode
  | absent _ | lost => none
  | name n _ | array n _ _ | ref n _ _ | pointer n _ | optional n _ | unknown n _ => some n

/-- The identifier that a type was reached by; a lost one shows none. -/
def id : TypeExpr → TypeExprId
  | absent i => i
  | lost => 0
  | name n _ | array n _ _ | ref n _ _ | pointer n _ | optional n _ | unknown n _ => n.id

end TypeExpr

namespace Expr

def node? : Expr → Option ExprNode
  | absent _ | lost => none
  | bare n _ | ident n _ | literal n _ _ | binary n _ _ _ | unary n _ _ | ref n _ _ | deref n _
  | call n _ _ | index n _ _ | field n _ _ | array n _ _ | cast n _ _ | block n _
  | ifElse n _ _ _ | whileLoop n _ _ | forLoop n _ _ _ _ => some n

def isGiven : Expr → Bool
  | absent id => id.isValid
  | _ => true

end Expr

def Jump.kind : Jump → StmtKind
  | return_ => .return_
  | break_ => .break_
  | continue_ => .continue_

namespace Stmt

def node? : Stmt → Option StmtNode
  | absent _ | lost => none
  | bare n _ | var n _ _ _ _ _ | assign n _ _ | func n _ _ _ _ _ _ | typeDecl n _ _ _ _ _ _
  | impl n _ _ _ | expr n _ _ | jump n _ _ => some n

def kind? : Stmt → Option StmtKind
  | absent _ | lost => none
  | bare _ k => some k
  | var .. => some .var
  | assign .. => some .assign
  | func .. => some .func
  | typeDecl .. => some .typeDecl
  | impl .. => some .impl
  | expr .. => some .expr
  | jump _ j _ => some j.kind

end Stmt

/-! ### Unfolding the tables -/

namespace Tree

def typeAt (t : Tree) : Nat → TypeExprId → TypeExpr
  | 0, _ => .lost
  | depth + 1, i =>
    match t.type? i with
    | none => if t.types.rows.isNone && i.isValid then .lost else .absent i
    | some r =>
      let n : TypeNode := ⟨i, r.span, r.modifier⟩
      match r.kind with
      | .name => .name n r.name
      | .array => .array n (typeAt t depth r.elem) r.length
      | .ref => .ref n (typeAt t depth r.elem) r.isMut
      | .pointer => .pointer n (typeAt t depth r.elem)
      | .optional => .optional n (typeAt t depth r.elem)
      | _ => .unknown n (typeAt t depth r.elem)

/-- The type with an identifier. A chain of types visits a type once only, so their number bounds
the depth. -/
def typeExpr (t : Tree) (i : TypeExprId) : TypeExpr := t.typeAt (t.types.size + 1) i

def paramForm (t : Tree) (p : Param) : ParamForm :=
  ⟨p.name, t.typeExpr p.type, p.modifier, p.span⟩

def memberForm (t : Tree) (m : Member) : MemberForm := ⟨m.name, t.typeExpr m.type, m.span⟩

mutual

def exprAt (t : Tree) : Nat → ExprId → Expr
  | 0, _ => .lost
  | depth + 1, i =>
    match t.expr? i with
    | none => if t.exprs.headers.rows.isNone && i.isValid then .lost else .absent i
    | some h =>
      let n : ExprNode := ⟨i, h.span, h.record⟩
      let p := h.record.index
      let e := exprAt t depth
      let form? : Option Expr := match h.kind with
        | .ident => (t.exprs.idents.get? p).map fun r => .ident n r.name
        | .literal => (t.exprs.literals.get? p).map fun r => .literal n r.kind r.value
        | .binary => (t.exprs.binaries.get? p).map fun r => .binary n r.op (e r.left) (e r.right)
        | .unary => (t.exprs.unaries.get? p).map fun r => .unary n r.op (e r.operand)
        | .ref => (t.exprs.refs.get? p).map fun r => .ref n r.isMut (e r.value)
        | .deref => (t.exprs.derefs.get? p).map fun r => .deref n (e r.value)
        | .call => (t.exprs.calls.get? p).map fun r =>
            .call n (e r.callee) ((r.args.getD []).map e)
        | .index => (t.exprs.indices.get? p).map fun r => .index n (e r.target) (e r.index)
        | .field => (t.exprs.fields.get? p).map fun r => .field n (e r.target) r.field
        | .array => (t.exprs.arrays.get? p).map fun r =>
            .array n ((r.elems.getD []).map e) (t.typeExpr r.elemType)
        | .cast => (t.exprs.casts.get? p).map fun r => .cast n (e r.value) (t.typeExpr r.type)
        | .block => (t.exprs.blocks.get? p).map fun r =>
            .block n ((r.stmts.getD []).map (stmtAt t depth))
        | .ifElse => (t.exprs.ifs.get? p).map fun r =>
            .ifElse n (e r.cond) (e r.body)
              ((r.arms.getD []).map fun a => .mk a.kind (e a.cond) (e a.body) a.span)
        | .whileLoop => (t.exprs.whiles.get? p).map fun r => .whileLoop n (e r.cond) (e r.body)
        | .forLoop => (t.exprs.fors.get? p).map fun r =>
            .forLoop n r.binding r.bindingSpan (e r.iter) (e r.body)
        | _ => none
      form?.getD (.bare n h.kind)

def stmtAt (t : Tree) : Nat → StmtId → Stmt
  | 0, _ => .lost
  | depth + 1, i =>
    match t.stmt? i with
    | none => if t.stmts.headers.rows.isNone && i.isValid then .lost else .absent i
    | some h =>
      let n : StmtNode := ⟨i, h.span, h.record⟩
      let p := h.record.index
      let e := exprAt t depth
      let ss := fun ids : Option (List StmtId) => (ids.getD []).map (stmtAt t depth)
      let jump := fun j : Jump => (t.stmts.jumps.get? p).map fun r => Stmt.jump n j (e r.value)
      let form? : Option Stmt := match h.kind with
        | .var => (t.stmts.vars.get? p).map fun r =>
            .var n r.name r.nameSpan (t.typeExpr r.type) (e r.value) r.modifier
        | .assign => (t.stmts.assigns.get? p).map fun r => .assign n (e r.target) (e r.value)
        | .func => (t.stmts.funcs.get? p).map fun r =>
            .func n r.name r.nameSpan ((r.params.getD []).map t.paramForm) (t.typeExpr r.result)
              (e r.body) r.modifier
        | .typeDecl => (t.stmts.typeDecls.get? p).map fun r =>
            .typeDecl n r.kind r.name r.nameSpan ((r.fields.getD []).map t.memberForm)
              ((r.variants.getD []).map t.memberForm) (ss r.methods)
        | .impl => (t.stmts.impls.get? p).map fun r =>
            .impl n (t.typeExpr r.trait) (t.typeExpr r.target) (ss r.methods)
        | .expr => (t.stmts.exprs.get? p).map fun r => .expr n (e r.expr) r.semicolon
        | .return_ => jump .return_
        | .break_ => jump .break_
        | .continue_ => jump .continue_
        | _ => none
      form?.getD (.bare n h.kind)

end

/-- A depth that no program without cycles reaches: one more than there are nodes. -/
def depth (t : Tree) : Nat := t.stmts.headers.size + t.exprs.headers.size + 1

def program (t : Tree) : List Stmt := t.rootList.map (t.stmtAt t.depth)

end Tree

end UnitCheck.Syntax
