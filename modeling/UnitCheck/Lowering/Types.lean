import UnitCheck.Lowering.Basic

/-!
# Types of lowered code

Types as they are written become types of the module. A name that was not found, or that does not
name a type, becomes the error type.
-/

namespace UnitCheck.Lowering

open Code Syntax

def namedType (c : Context) (d : DeclId) : Lower TypeId := do
  match c.decls.get? d with
  | none => return Builtin.error
  | some decl =>
    if decl.kind ≠ .type then return Builtin.error
    else
      let name := c.name decl.name
      if decl.builtin then return (Builtin.ofName? name).getD Builtin.error
      else onTypes (·.named d name)

def lowerType (c : Context) : TypeExpr → Lower TypeId
  | .absent _ => return 0
  | .lost => throw .malformed
  | .name n _ => do
    let i ← namedType c (((c.tree.type? n.id).map TypeRecord.decl).getD 0)
    onTypes (·.withModifier i n.modifier)
  | .array n elem length => do
    let e ← lowerType c elem
    let i ← onTypes
      (·.intern (.ofShape (if length = noLength then .slice e else .array .stack e length)))
    onTypes (·.withModifier i n.modifier)
  | .ref n elem isMut => do
    let e ← lowerType c elem
    let i ← onTypes (·.intern (Shape.reference isMut e))
    onTypes (·.withModifier i n.modifier)
  | .pointer n elem => do
    let e ← lowerType c elem
    let i ← onTypes (·.intern (Shape.pointer e))
    onTypes (·.withModifier i n.modifier)
  | .optional n elem => do
    let e ← lowerType c elem
    let i ← onTypes (·.intern (Shape.optional e))
    onTypes (·.withModifier i n.modifier)
  | .unknown n _ => onTypes (·.withModifier Builtin.error n.modifier)

end UnitCheck.Lowering
