import UnitCheck.Modifier
import UnitCheck.Name
import UnitCheck.Span
import UnitCheck.Syntax.Kind

/-!
# Syntax trees as tables

A parser hands over a unit as flat tables. Every statement and expression has a *header* (its kind,
its span and the position of its record) and every kind has a table of *records*. Children are named
by identifier. Types have one table only.

Nothing ties a header to a record of its own: two headers may share a record, and identifiers may
name nothing. Name resolution writes its findings into the annotation fields `decl`, `scope` and
`candidates` of the records.

A table that a file leaves out is *absent*, and a list that it leaves out is `none`; both are kept
apart from empty ones because they are written back as they came.
-/

namespace UnitCheck.Syntax

/-! ### Records of statements -/

/-- A statement or expression: its kind, its place and its record. -/
structure Header (κ : Type) where
  kind : κ
  span : Span
  record : PayloadId

structure VarRecord where
  name : NameId
  nameSpan : Span
  /-- Zero if the type is to be inferred. -/
  type : TypeExprId
  /-- Zero if there is no first value. -/
  value : ExprId
  modifier : Modifier
  decl : DeclId
deriving DecidableEq

structure AssignRecord where
  target : ExprId
  value : ExprId
deriving DecidableEq

structure Param where
  name : NameId
  type : TypeExprId
  modifier : Modifier
  span : Span
  decl : DeclId
deriving DecidableEq

structure FuncRecord where
  name : NameId
  nameSpan : Span
  params : Option (List Param)
  /-- Zero if the function gives no value. -/
  result : TypeExprId
  /-- Zero if the function is only announced. -/
  body : ExprId
  modifier : Modifier
  decl : DeclId
  scope : Option ScopeId
deriving DecidableEq

structure Member where
  name : NameId
  type : TypeExprId
  span : Span
  decl : DeclId
deriving DecidableEq

structure TypeDeclRecord where
  kind : TypeDeclKind
  name : NameId
  nameSpan : Span
  fields : Option (List Member)
  variants : Option (List Member)
  methods : Option (List StmtId)
  decl : DeclId
  scope : Option ScopeId
deriving DecidableEq

structure ImplRecord where
  trait : TypeExprId
  target : TypeExprId
  methods : Option (List StmtId)
  scope : Option ScopeId
deriving DecidableEq

structure ExprStmtRecord where
  expr : ExprId
  semicolon : Bool
deriving DecidableEq

structure JumpRecord where
  value : ExprId
deriving DecidableEq

/-! ### Records of expressions -/

structure IdentRecord where
  name : NameId
  decl : DeclId
deriving DecidableEq

structure LiteralRecord where
  kind : LiteralKind
  value : NameId
deriving DecidableEq

structure BinaryRecord where
  op : BinaryOp
  left : ExprId
  right : ExprId
deriving DecidableEq

structure UnaryRecord where
  op : UnaryOp
  operand : ExprId
deriving DecidableEq

structure RefRecord where
  isMut : Bool
  value : ExprId
deriving DecidableEq

structure DerefRecord where
  value : ExprId
deriving DecidableEq

structure CallRecord where
  callee : ExprId
  args : Option (List ExprId)
  /-- The functions with the callee's name that the call can see, innermost first. -/
  candidates : Option (List DeclId)
deriving DecidableEq

structure IndexRecord where
  target : ExprId
  index : ExprId
deriving DecidableEq

structure FieldRecord where
  target : ExprId
  field : NameId
deriving DecidableEq

structure ArrayRecord where
  elems : Option (List ExprId)
  /-- Zero if the type of the elements is to be inferred. -/
  elemType : TypeExprId
deriving DecidableEq

structure CastRecord where
  value : ExprId
  type : TypeExprId
deriving DecidableEq

structure BlockRecord where
  stmts : Option (List StmtId)
  scope : Option ScopeId
deriving DecidableEq

structure ArmRecord where
  kind : ArmKind
  cond : ExprId
  body : ExprId
  span : Span
deriving DecidableEq

structure IfRecord where
  cond : ExprId
  body : ExprId
  arms : Option (List ArmRecord)
deriving DecidableEq

structure WhileRecord where
  /-- Zero for a loop without condition. -/
  cond : ExprId
  body : ExprId
deriving DecidableEq

structure ForRecord where
  binding : NameId
  bindingSpan : Span
  decl : DeclId
  iter : ExprId
  body : ExprId
  scope : Option ScopeId
deriving DecidableEq

/-! ### Types -/

structure TypeRecord where
  kind : TypeExprKind
  span : Span
  modifier : Modifier
  name : NameId
  decl : DeclId
  elem : TypeExprId
  length : UInt32
  isMut : Bool
deriving DecidableEq, Inhabited

/-! ### Tables -/

/-- A table of records, counted from one; `none` if it is absent. -/
structure Arena (α : Type) where
  rows : Option (Array α)

namespace Arena

variable {α : Type}

def empty : Arena α := ⟨some #[]⟩

def toArray (a : Arena α) : Array α := a.rows.getD #[]

def size (a : Arena α) : Nat := a.toArray.size

def get? (a : Arena α) (i : Nat) : Option α := if i = 0 then none else a.toArray[i - 1]?

def push (a : Arena α) (x : α) : Arena α × Nat := (⟨some (a.toArray.push x)⟩, a.size + 1)

def modify (a : Arena α) (i : Nat) (f : α → α) : Arena α :=
  if i = 0 then a else ⟨a.rows.map fun rows => rows.modify (i - 1) f⟩

end Arena

structure Stmts where
  headers : Arena (Header StmtKind)
  vars : Arena VarRecord
  assigns : Arena AssignRecord
  funcs : Arena FuncRecord
  typeDecls : Arena TypeDeclRecord
  impls : Arena ImplRecord
  exprs : Arena ExprStmtRecord
  jumps : Arena JumpRecord

def Stmts.empty : Stmts := ⟨.empty, .empty, .empty, .empty, .empty, .empty, .empty, .empty⟩

structure Exprs where
  headers : Arena (Header ExprKind)
  idents : Arena IdentRecord
  literals : Arena LiteralRecord
  binaries : Arena BinaryRecord
  unaries : Arena UnaryRecord
  refs : Arena RefRecord
  derefs : Arena DerefRecord
  calls : Arena CallRecord
  indices : Arena IndexRecord
  fields : Arena FieldRecord
  arrays : Arena ArrayRecord
  casts : Arena CastRecord
  blocks : Arena BlockRecord
  ifs : Arena IfRecord
  whiles : Arena WhileRecord
  fors : Arena ForRecord

def Exprs.empty : Exprs :=
  ⟨.empty, .empty, .empty, .empty, .empty, .empty, .empty, .empty, .empty, .empty, .empty, .empty,
   .empty, .empty, .empty, .empty⟩

structure Tree where
  names : NameTable
  stmts : Stmts
  exprs : Exprs
  types : Arena TypeRecord
  /-- The statements at the top, in order. -/
  root : Option (List StmtId)

namespace Tree

def empty : Tree := ⟨.empty, .empty, .empty, .empty, none⟩

def rootList (t : Tree) : List StmtId := t.root.getD []

def stmt? (t : Tree) (i : StmtId) : Option (Header StmtKind) := t.stmts.headers.get? i.index

def expr? (t : Tree) (i : ExprId) : Option (Header ExprKind) := t.exprs.headers.get? i.index

def type? (t : Tree) (i : TypeExprId) : Option TypeRecord := t.types.get? i.index

end Tree

end UnitCheck.Syntax
