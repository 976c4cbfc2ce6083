import UnitCheck.Text.Basic

/-!
# Binding modifiers

What a declaration or a type may say about writing to a binding. Files hold modifiers as bytes and
may hold values without a name, which behave like none of the named ones.
-/

namespace UnitCheck

structure Modifier where
  code : UInt8
deriving DecidableEq, Inhabited

namespace Modifier

@[match_pattern] def default : Modifier := ⟨0⟩
@[match_pattern] def mutable : Modifier := ⟨1⟩
@[match_pattern] def const : Modifier := ⟨2⟩
@[match_pattern] def literal : Modifier := ⟨3⟩

def toText : Modifier → Text
  | mutable => "mut"
  | const => "const"
  | literal => "literal"
  | _ => .empty

def ofText (t : Text) : Modifier :=
  if t = "mut" then mutable else if t = "const" then const
  else if t = "literal" then literal else default

end Modifier

end UnitCheck
