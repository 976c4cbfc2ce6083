import UnitCheck.Id
import UnitCheck.Modifier

/-!
# Types

A type is described by its outermost constructor and, for its parts, by the identifiers of other
types in the same table. `Kind` is the constructor alone. Number types without a width have the
width of the machine; literals have untyped kinds until something settles them.
-/

namespace UnitCheck

/-- The outermost constructor of a type, by its number in files. -/
structure Kind where
  code : UInt8
deriving DecidableEq

namespace Kind

@[match_pattern] def invalid : Kind := ⟨0⟩
/-- The type of what could not be typed; it goes with everything. -/
@[match_pattern] def error : Kind := ⟨1⟩
@[match_pattern] def unit : Kind := ⟨2⟩
@[match_pattern] def none : Kind := ⟨3⟩
@[match_pattern] def bool : Kind := ⟨4⟩
@[match_pattern] def char : Kind := ⟨5⟩
@[match_pattern] def str : Kind := ⟨6⟩
@[match_pattern] def int : Kind := ⟨7⟩
@[match_pattern] def uint : Kind := ⟨8⟩
@[match_pattern] def float : Kind := ⟨9⟩
@[match_pattern] def untypedInt : Kind := ⟨10⟩
@[match_pattern] def untypedUint : Kind := ⟨11⟩
@[match_pattern] def untypedFloat : Kind := ⟨12⟩
@[match_pattern] def array : Kind := ⟨13⟩
@[match_pattern] def reference : Kind := ⟨14⟩
@[match_pattern] def pointer : Kind := ⟨15⟩
@[match_pattern] def optional : Kind := ⟨16⟩
@[match_pattern] def named : Kind := ⟨17⟩
@[match_pattern] def fn : Kind := ⟨18⟩
@[match_pattern] def var : Kind := ⟨19⟩

def toText : Kind → Text
  | invalid => "invalid"
  | error => "error"
  | unit => "unit"
  | none => "none"
  | bool => "bool"
  | char => "char"
  | str => "str"
  | int => "int"
  | uint => "uint"
  | float => "float"
  | untypedInt => "untyped int"
  | untypedUint => "untyped uint"
  | untypedFloat => "untyped float"
  | array => "array"
  | reference => "reference"
  | pointer => "pointer"
  | optional => "optional"
  | named => "named"
  | fn => "fn"
  | var => "var"
  | ⟨n⟩ => "Kind(" ++ Text.ofNat n.toNat ++ ")"

def isUntyped : Kind → Bool
  | untypedInt | untypedUint | untypedFloat => true
  | _ => false

def isNumeric : Kind → Bool
  | int | uint | float | untypedInt | untypedUint | untypedFloat => true
  | _ => false

def isInteger : Kind → Bool
  | int | uint | untypedInt | untypedUint => true
  | _ => false

/-- The rank of a number family: float below signed below unsigned. Other kinds have rank zero. -/
def precedence : Kind → Nat
  | float | untypedFloat => 1
  | int | untypedInt => 2
  | uint | untypedUint => 3
  | _ => 0

/-- Whether a literal of an untyped kind may take a concrete number type: an unsigned literal any,
a signed one a signed or a float type, a float literal a float type only. -/
def fits (literal target : Kind) : Bool :=
  literal.isUntyped && target.isNumeric && !target.isUntyped &&
    target.precedence ≤ literal.precedence

end Kind

inductive Storage
  | stack
  | heap
  /-- A view of an array whose length is not known. -/
  | slice
deriving DecidableEq

namespace Storage

def toCode : Storage → UInt8
  | stack => 0
  | heap => 1
  | slice => 2

def ofCode : UInt8 → Storage
  | 1 => heap
  | 2 => slice
  | _ => stack

def toText : Storage → Text
  | stack => "stack"
  | heap => "heap"
  | slice => "slice"

end Storage

/-- The length of an array whose length is not known. -/
def dynamicLength : UInt32 := 0xFFFFFFFF

inductive Shape
  /-- A kind that has no parts. -/
  | plain (k : Kind)
  | int (width : UInt8)
  | uint (width : UInt8)
  | float (width : UInt8)
  | array (storage : Storage) (elem : TypeId) (count : UInt32)
  | reference (isMut : Bool) (elem : TypeId)
  | pointer (elem : TypeId)
  | optional (elem : TypeId)
  /-- A declared type; `slot` is the entry with its name. -/
  | named (decl : DeclId) (slot : Nat)
  /-- A function type; `slot` is the entry with its signature. -/
  | fn (slot : Nat)
  | var (v : VarId)
deriving DecidableEq

namespace Shape

def kind : Shape → Kind
  | plain k => k
  | int _ => .int
  | uint _ => .uint
  | float _ => .float
  | array .. => .array
  | reference .. => .reference
  | pointer _ => .pointer
  | optional _ => .optional
  | named .. => .named
  | fn _ => .fn
  | var _ => .var

/-- The shape of a kind with all parts missing. -/
def ofKind : Kind → Shape
  | .int => int 0
  | .uint => uint 0
  | .float => float 0
  | .array => array .stack 0 0
  | .reference => reference false 0
  | .pointer => pointer 0
  | .optional => optional 0
  | .named => named 0 0
  | .fn => fn 0
  | .var => var 0
  | k => plain k

/-- The width of a number type; other types have none. -/
def width : Shape → UInt8
  | int w | uint w | float w => w
  | _ => 0

def slice (elem : TypeId) : Shape := array .slice elem dynamicLength

def referent? : Shape → Option TypeId
  | reference _ elem => some elem
  | _ => none

end Shape

structure Ty where
  shape : Shape
  modifier : Modifier
deriving DecidableEq

namespace Ty

def kind (t : Ty) : Kind := t.shape.kind

def ofShape (s : Shape) : Ty := ⟨s, .default⟩

instance : Coe Shape Ty := ⟨ofShape⟩

end Ty

end UnitCheck
