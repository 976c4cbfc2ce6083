import UnitCheck.Text.Basic

/-!
# Kinds of syntax

The words of the checked language's grammar: which statements, expressions, types and operators
there are. Files hold each of them as a byte, and a byte without a meaning is kept as it is.
-/

namespace UnitCheck.Syntax

/-! ### Statements -/

structure StmtKind where
  code : UInt8
deriving DecidableEq, Inhabited

namespace StmtKind

@[match_pattern] def var : StmtKind := ⟨1⟩
@[match_pattern] def assign : StmtKind := ⟨2⟩
@[match_pattern] def func : StmtKind := ⟨3⟩
@[match_pattern] def typeDecl : StmtKind := ⟨4⟩
@[match_pattern] def impl : StmtKind := ⟨5⟩
@[match_pattern] def expr : StmtKind := ⟨6⟩
@[match_pattern] def return_ : StmtKind := ⟨7⟩
@[match_pattern] def break_ : StmtKind := ⟨8⟩
@[match_pattern] def continue_ : StmtKind := ⟨9⟩

def toText : StmtKind → Text
  | var => "Var"
  | assign => "Assign"
  | func => "Func"
  | typeDecl => "TypeDecl"
  | impl => "Impl"
  | expr => "Expr"
  | return_ => "Return"
  | break_ => "Break"
  | continue_ => "Continue"
  | _ => "Unknown"

def isDeclared (k : StmtKind) : Bool := 1 ≤ k.code && k.code ≤ 9

end StmtKind

structure TypeDeclKind where
  code : UInt8
deriving DecidableEq

namespace TypeDeclKind

@[match_pattern] def struct_ : TypeDeclKind := ⟨1⟩
@[match_pattern] def class_ : TypeDeclKind := ⟨2⟩
@[match_pattern] def trait_ : TypeDeclKind := ⟨3⟩
@[match_pattern] def enum_ : TypeDeclKind := ⟨4⟩
@[match_pattern] def union_ : TypeDeclKind := ⟨5⟩

def toText : TypeDeclKind → Text
  | struct_ => "struct"
  | class_ => "class"
  | trait_ => "trait"
  | enum_ => "enum"
  | union_ => "union"
  | _ => "type"

def ofText (t : Text) : TypeDeclKind :=
  if t = "struct" then struct_ else if t = "class" then class_ else if t = "trait" then trait_
  else if t = "enum" then enum_ else if t = "union" then union_ else ⟨0⟩

end TypeDeclKind

/-! ### Expressions -/

structure ExprKind where
  code : UInt8
deriving DecidableEq, Inhabited

namespace ExprKind

@[match_pattern] def ident : ExprKind := ⟨1⟩
@[match_pattern] def literal : ExprKind := ⟨2⟩
@[match_pattern] def binary : ExprKind := ⟨3⟩
@[match_pattern] def unary : ExprKind := ⟨4⟩
@[match_pattern] def ref : ExprKind := ⟨5⟩
@[match_pattern] def deref : ExprKind := ⟨6⟩
@[match_pattern] def call : ExprKind := ⟨7⟩
@[match_pattern] def index : ExprKind := ⟨8⟩
@[match_pattern] def field : ExprKind := ⟨9⟩
@[match_pattern] def array : ExprKind := ⟨10⟩
@[match_pattern] def cast : ExprKind := ⟨11⟩
@[match_pattern] def block : ExprKind := ⟨12⟩
@[match_pattern] def ifElse : ExprKind := ⟨13⟩
@[match_pattern] def whileLoop : ExprKind := ⟨14⟩
@[match_pattern] def forLoop : ExprKind := ⟨15⟩

def names : List String :=
  ["Ident", "Lit", "Binary", "Unary", "Ref", "Deref", "Call", "Index", "Field", "Array", "Cast",
   "Block", "If", "While", "For"]

def toText (k : ExprKind) : Text :=
  if k.code = 0 then "Unknown" else (names[k.code.toNat - 1]?).getD "Unknown"

def isDeclared (k : ExprKind) : Bool := 1 ≤ k.code && k.code ≤ 15

end ExprKind

structure LiteralKind where
  code : UInt8
deriving DecidableEq

namespace LiteralKind

@[match_pattern] def int : LiteralKind := ⟨1⟩
@[match_pattern] def uint : LiteralKind := ⟨2⟩
@[match_pattern] def float : LiteralKind := ⟨3⟩
@[match_pattern] def true_ : LiteralKind := ⟨4⟩
@[match_pattern] def false_ : LiteralKind := ⟨5⟩
@[match_pattern] def string : LiteralKind := ⟨6⟩
@[match_pattern] def char : LiteralKind := ⟨7⟩

end LiteralKind

structure BinaryOp where
  code : UInt8
deriving DecidableEq

/-- What a binary operator does with its operands. -/
inductive OpClass
  | arithmetic
  | ordering
  | equality
  | logical
  | bitwise
deriving DecidableEq

namespace BinaryOp

def spellings : List String :=
  ["+", "-", "*", "/", "%", "==", "!=", "<", "<=", ">", ">=", "&&", "||", "&", "|", "^", "<<", ">>"]

def toText (op : BinaryOp) : Text :=
  if op.code = 0 then "?" else (spellings[op.code.toNat - 1]?).getD "?"

def ofText? (t : Text) : Option BinaryOp :=
  (spellings.findIdx? fun s => Text.ofString s == t).map fun i => ⟨UInt8.ofNat (i + 1)⟩

/-- The class of an operator; a byte that is no operator counts as arithmetic. -/
def opClass (op : BinaryOp) : OpClass :=
  match op.code.toNat with
  | 6 | 7 => .equality
  | 8 | 9 | 10 | 11 => .ordering
  | 12 | 13 => .logical
  | 14 | 15 | 16 | 17 | 18 => .bitwise
  | _ => .arithmetic

end BinaryOp

structure UnaryOp where
  code : UInt8
deriving DecidableEq

namespace UnaryOp

@[match_pattern] def neg : UnaryOp := ⟨1⟩
@[match_pattern] def not : UnaryOp := ⟨2⟩

def toText : UnaryOp → Text
  | neg => "-"
  | not => "!"
  | _ => "?"

end UnaryOp

structure ArmKind where
  code : UInt8
deriving DecidableEq

namespace ArmKind

@[match_pattern] def elseIf : ArmKind := ⟨1⟩
@[match_pattern] def plain : ArmKind := ⟨2⟩

end ArmKind

/-! ### Types -/

structure TypeExprKind where
  code : UInt8
deriving DecidableEq, Inhabited

namespace TypeExprKind

@[match_pattern] def name : TypeExprKind := ⟨1⟩
@[match_pattern] def array : TypeExprKind := ⟨2⟩
@[match_pattern] def ref : TypeExprKind := ⟨3⟩
@[match_pattern] def pointer : TypeExprKind := ⟨4⟩
@[match_pattern] def optional : TypeExprKind := ⟨5⟩

end TypeExprKind

def noLength : UInt32 := 0xFFFFFFFF

end UnitCheck.Syntax
