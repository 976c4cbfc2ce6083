import UnitCheck.Ty.Table

/-!
# Numbers and copies

Questions about types that inference asks: what a literal becomes if nothing says otherwise, which
of two number types an operation takes, and which values may be copied without being asked for.
-/

namespace UnitCheck.TypeTable

/-- The type that a literal gets if nothing constrains it: `int`, or `f32` for a float literal.
Other types are left as they are. -/
def defaultFor (t : TypeTable) (i : TypeId) : TypeId :=
  match t.kind i with
  | .untypedInt | .untypedUint => Builtin.int
  | .untypedFloat => Builtin.f32
  | _ => i

/-- The operand type that a number operation takes: a concrete type before an untyped one, then the
family of lower rank, then the greater width. -/
def wider (t : TypeTable) (a b : TypeId) : TypeId :=
  match t.lookup? a, t.lookup? b with
  | none, _ => b
  | _, none => a
  | some ta, some tb =>
    if ta.kind.isUntyped != tb.kind.isUntyped then if ta.kind.isUntyped then b else a
    else if ta.kind.precedence ≠ tb.kind.precedence then
      if ta.kind.precedence < tb.kind.precedence then a else b
    else if tb.shape.width = 0 ∨ (ta.shape.width ≠ 0 ∧ ta.shape.width < tb.shape.width) then b
    else a

def copyDepth : Nat := 17

/-- Whether values of a type may be copied, with `depth` levels left to look into. -/
def isCopyAt (t : TypeTable) : Nat → TypeId → Bool
  | 0, _ => false
  | depth + 1, i =>
    match t.lookup? i with
    | none => false
    | some ty => match ty.shape with
      | .plain k =>
        match k with
        | .error | .unit | .none | .bool | .char | .untypedInt | .untypedUint | .untypedFloat =>
          true
        | _ => false
      | .int _ | .uint _ | .float _ | .pointer _ => true
      | .reference isMut _ => !isMut
      | .optional e => isCopyAt t depth e
      | .array storage e _ => storage = .stack && isCopyAt t depth e
      | .named .. | .fn _ | .var _ => false

def isCopy (t : TypeTable) (i : TypeId) : Bool := t.isCopyAt copyDepth i

end UnitCheck.TypeTable
