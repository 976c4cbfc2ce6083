import UnitCheck.Syntax.Tree

/-!
# Building trees

Nodes are added one after the other, children before the nodes that they belong to, each with a new
record. Annotations start out empty. A list without elements is left out.
-/

namespace UnitCheck.Syntax

abbrev Build := StateM Tree

def listOrNone {α : Type} (xs : List α) : Option (List α) := if xs.isEmpty then none else some xs

namespace Build

def name (t : Text) : Build NameId := modifyGet fun tree =>
  let (names, i) := tree.names.intern t
  (i, { tree with names })

def pushRoot (i : StmtId) : Build Unit :=
  modify fun t => { t with root := some (t.rootList ++ [i]) }

/-! ### Statements -/

def stmt (kind : StmtKind) (span : Span) (record : PayloadId) : Build StmtId := modifyGet fun t =>
  let (headers, i) := t.stmts.headers.push ⟨kind, span, record⟩
  (⟨i⟩, { t with stmts := { t.stmts with headers } })

def stmtWith (kind : StmtKind) (span : Span) (push : Stmts → Stmts × Nat) : Build StmtId := do
  let t ← get
  let (stmts, i) := push t.stmts
  set { t with stmts }
  stmt kind span ⟨i⟩

def var (span nameSpan : Span) (name : NameId) (type : TypeExprId) (value : ExprId)
    (modifier : Modifier) : Build StmtId :=
  stmtWith .var span fun s =>
    let (vars, i) := s.vars.push ⟨name, nameSpan, type, value, modifier, 0⟩
    ({ s with vars }, i)

def assign (span : Span) (target value : ExprId) : Build StmtId :=
  stmtWith .assign span fun s =>
    let (assigns, i) := s.assigns.push ⟨target, value⟩
    ({ s with assigns }, i)

def func (span nameSpan : Span) (name : NameId) (params : List Param) (result : TypeExprId)
    (body : ExprId) (modifier : Modifier) : Build StmtId :=
  stmtWith .func span fun s =>
    let (funcs, i) :=
      s.funcs.push ⟨name, nameSpan, listOrNone params, result, body, modifier, 0, none⟩
    ({ s with funcs }, i)

def typeDecl (span nameSpan : Span) (kind : TypeDeclKind) (name : NameId)
    (fields variants : List Member) (methods : List StmtId) : Build StmtId :=
  stmtWith .typeDecl span fun s =>
    let (typeDecls, i) := s.typeDecls.push
      ⟨kind, name, nameSpan, listOrNone fields, listOrNone variants, listOrNone methods, 0, none⟩
    ({ s with typeDecls }, i)

def impl (span : Span) (trait target : TypeExprId) (methods : List StmtId) : Build StmtId :=
  stmtWith .impl span fun s =>
    let (impls, i) := s.impls.push ⟨trait, target, listOrNone methods, none⟩
    ({ s with impls }, i)

def exprStmt (span : Span) (expr : ExprId) (semicolon : Bool) : Build StmtId :=
  stmtWith .expr span fun s =>
    let (exprs, i) := s.exprs.push ⟨expr, semicolon⟩
    ({ s with exprs }, i)

def jump (kind : StmtKind) (span : Span) (value : ExprId) : Build StmtId :=
  stmtWith kind span fun s =>
    let (jumps, i) := s.jumps.push ⟨value⟩
    ({ s with jumps }, i)

/-! ### Expressions -/

def expr (kind : ExprKind) (span : Span) (record : PayloadId) : Build ExprId := modifyGet fun t =>
  let (headers, i) := t.exprs.headers.push ⟨kind, span, record⟩
  (⟨i⟩, { t with exprs := { t.exprs with headers } })

def exprWith (kind : ExprKind) (span : Span) (push : Exprs → Exprs × Nat) : Build ExprId := do
  let t ← get
  let (exprs, i) := push t.exprs
  set { t with exprs }
  expr kind span ⟨i⟩

def ident (span : Span) (name : NameId) : Build ExprId :=
  exprWith .ident span fun e =>
    let (idents, i) := e.idents.push ⟨name, 0⟩
    ({ e with idents }, i)

def literal (span : Span) (kind : LiteralKind) (value : NameId) : Build ExprId :=
  exprWith .literal span fun e =>
    let (literals, i) := e.literals.push ⟨kind, value⟩
    ({ e with literals }, i)

def binary (span : Span) (op : BinaryOp) (left right : ExprId) : Build ExprId :=
  exprWith .binary span fun e =>
    let (binaries, i) := e.binaries.push ⟨op, left, right⟩
    ({ e with binaries }, i)

def unary (span : Span) (op : UnaryOp) (operand : ExprId) : Build ExprId :=
  exprWith .unary span fun e =>
    let (unaries, i) := e.unaries.push ⟨op, operand⟩
    ({ e with unaries }, i)

def ref (span : Span) (isMut : Bool) (value : ExprId) : Build ExprId :=
  exprWith .ref span fun e =>
    let (refs, i) := e.refs.push ⟨isMut, value⟩
    ({ e with refs }, i)

def deref (span : Span) (value : ExprId) : Build ExprId :=
  exprWith .deref span fun e =>
    let (derefs, i) := e.derefs.push ⟨value⟩
    ({ e with derefs }, i)

def call (span : Span) (callee : ExprId) (args : List ExprId) : Build ExprId :=
  exprWith .call span fun e =>
    let (calls, i) := e.calls.push ⟨callee, listOrNone args, none⟩
    ({ e with calls }, i)

def index (span : Span) (target index : ExprId) : Build ExprId :=
  exprWith .index span fun e =>
    let (indices, i) := e.indices.push ⟨target, index⟩
    ({ e with indices }, i)

def field (span : Span) (target : ExprId) (name : NameId) : Build ExprId :=
  exprWith .field span fun e =>
    let (fields, i) := e.fields.push ⟨target, name⟩
    ({ e with fields }, i)

def array (span : Span) (elemType : TypeExprId) (elems : List ExprId) : Build ExprId :=
  exprWith .array span fun e =>
    let (arrays, i) := e.arrays.push ⟨listOrNone elems, elemType⟩
    ({ e with arrays }, i)

def cast (span : Span) (value : ExprId) (type : TypeExprId) : Build ExprId :=
  exprWith .cast span fun e =>
    let (casts, i) := e.casts.push ⟨value, type⟩
    ({ e with casts }, i)

def block (span : Span) (stmts : List StmtId) : Build ExprId :=
  exprWith .block span fun e =>
    let (blocks, i) := e.blocks.push ⟨listOrNone stmts, none⟩
    ({ e with blocks }, i)

def ifElse (span : Span) (cond body : ExprId) (arms : List ArmRecord) : Build ExprId :=
  exprWith .ifElse span fun e =>
    let (ifs, i) := e.ifs.push ⟨cond, body, listOrNone arms⟩
    ({ e with ifs }, i)

def whileLoop (span : Span) (cond body : ExprId) : Build ExprId :=
  exprWith .whileLoop span fun e =>
    let (whiles, i) := e.whiles.push ⟨cond, body⟩
    ({ e with whiles }, i)

def forLoop (span : Span) (binding : NameId) (bindingSpan : Span) (iter body : ExprId) :
    Build ExprId :=
  exprWith .forLoop span fun e =>
    let (fors, i) := e.fors.push ⟨binding, bindingSpan, 0, iter, body, none⟩
    ({ e with fors }, i)

/-! ### Types -/

def type (r : TypeRecord) : Build TypeExprId := modifyGet fun t =>
  let (types, i) := t.types.push r
  (⟨i⟩, { t with types })

def typeName (span : Span) (name : NameId) (modifier : Modifier) : Build TypeExprId :=
  type ⟨.name, span, modifier, name, 0, 0, 0, false⟩

def arrayType (span : Span) (elem : TypeExprId) (length : UInt32) (modifier : Modifier) :
    Build TypeExprId :=
  type ⟨.array, span, modifier, 0, 0, elem, length, false⟩

def sliceType (span : Span) (elem : TypeExprId) (modifier : Modifier) : Build TypeExprId :=
  arrayType span elem noLength modifier

def refType (span : Span) (elem : TypeExprId) (isMut : Bool) (modifier : Modifier) :
    Build TypeExprId :=
  type ⟨.ref, span, modifier, 0, 0, elem, 0, isMut⟩

def pointerType (span : Span) (elem : TypeExprId) (modifier : Modifier) : Build TypeExprId :=
  type ⟨.pointer, span, modifier, 0, 0, elem, 0, false⟩

def optionalType (span : Span) (elem : TypeExprId) (modifier : Modifier) : Build TypeExprId :=
  type ⟨.optional, span, modifier, 0, 0, elem, 0, false⟩

end Build

end UnitCheck.Syntax
