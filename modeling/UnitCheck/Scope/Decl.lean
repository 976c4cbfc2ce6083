import UnitCheck.Id
import UnitCheck.Modifier
import UnitCheck.Span
import UnitCheck.Syntax.Kind

/-!
# Declarations

What a name can stand for. Every declaring place of a unit has its own declaration, and uses point
at declarations by identifier.
-/

namespace UnitCheck

inductive DeclKind
  | invalid
  | var
  | function
  | param
  | type
  | field
  | variant
deriving DecidableEq

namespace DeclKind

def toText : DeclKind → Text
  | invalid => "invalid"
  | var => "variable"
  | function => "function"
  | param => "param"
  | type => "type"
  | field => "field"
  | variant => "variant"

def ofText (t : Text) : DeclKind :=
  if t = "variable" then var else if t = "function" then function
  else if t = "param" then param else if t = "type" then type else if t = "field" then field
  else if t = "variant" then variant else invalid

end DeclKind

structure Decl where
  kind : DeclKind
  name : NameId
  span : Span
  /-- The scope that it was declared in. -/
  scope : ScopeId
  /-- The type around a field, variant or method; the function around a parameter. -/
  owner : DeclId
  typeKind : Syntax.TypeDeclKind
  modifier : Modifier
  stmt : StmtId
  builtin : Bool
deriving DecidableEq

def Decl.fresh (kind : DeclKind) (name : NameId) (span : Span) (modifier : Modifier) : Decl :=
  ⟨kind, name, span, .root, 0, ⟨0⟩, modifier, 0, false⟩

def Decl.isTrait (d : Decl) : Bool := d.kind == .type && d.typeKind == .trait_

structure Entry where
  decl : DeclId
  kind : DeclKind
  span : Span
deriving DecidableEq

structure Decls where
  items : Array Decl

namespace Decls

def empty : Decls := ⟨#[]⟩

def size (d : Decls) : Nat := d.items.size

def get? (d : Decls) (i : DeclId) : Option Decl :=
  if i.index = 0 then none else d.items[i.index - 1]?

def push (d : Decls) (x : Decl) : Decls × DeclId := (⟨d.items.push x⟩, ⟨d.items.size + 1⟩)

def modify (d : Decls) (i : DeclId) (f : Decl → Decl) : Decls :=
  if i.index = 0 then d else ⟨d.items.modify (i.index - 1) f⟩

def isBuiltin (d : Decls) (i : DeclId) : Bool :=
  match d.get? i with
  | some x => x.builtin
  | none => false

end Decls

end UnitCheck
