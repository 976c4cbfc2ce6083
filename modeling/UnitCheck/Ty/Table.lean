import UnitCheck.Abort
import UnitCheck.Ty.Basic

/-!
# The type table

Types are kept once each and named by their position, so that equal types have equal identifiers.
Position zero is reserved for "no type". Every table starts with the built-in types, in a fixed
order; their identifiers are the constants of `Builtin`.

Function signatures and names of declared types are kept beside the table; their entry zero is
reserved as well.
-/

namespace UnitCheck

structure Signature where
  params : List TypeId
  result : TypeId
deriving DecidableEq

/-- A declared type with the name that it is shown by. -/
structure NamedType where
  decl : DeclId
  name : Text
deriving DecidableEq

structure TypeTable where
  types : Array Ty
  signatures : Array Signature
  names : Array NamedType
  /-- The type of each declaration, newest entry first. -/
  byDecl : List (DeclId × TypeId)

namespace TypeTable

def size (t : TypeTable) : Nat := t.types.size

/-- The position of the last occurrence of a type among the first `n` entries. -/
def lastIndex? (types : Array Ty) (ty : Ty) : Nat → Option Nat
  | 0 => none
  | n + 1 => if types[n]? = some ty then some n else lastIndex? types ty n

def find? (t : TypeTable) (ty : Ty) : Option TypeId :=
  (lastIndex? t.types ty t.types.size).map Id.mk

def push (t : TypeTable) (ty : Ty) : TypeTable × TypeId :=
  ({ t with types := t.types.push ty }, ⟨t.types.size⟩)

/-- The identifier of a type, added on first use. An invalid type is no type. -/
def intern (t : TypeTable) (ty : Ty) : TypeTable × TypeId :=
  if ty.kind = .invalid then (t, 0)
  else match t.find? ty with
    | some i => (t, i)
    | none => t.push ty

/-- The type with an identifier; identifier zero has none. -/
def lookup? (t : TypeTable) (i : TypeId) : Option Ty :=
  if i.index = 0 then none else t.types[i.index]?

/-- The type with an identifier that the table gave out. -/
def lookup (t : TypeTable) (i : TypeId) : Except Abort Ty :=
  match t.lookup? i with
  | some ty => .ok ty
  | none => .error .unknownType

/-- The kind of a type; invalid if there is no such type. -/
def kind (t : TypeTable) (i : TypeId) : Kind :=
  match t.lookup? i with
  | some ty => ty.kind
  | none => .invalid

def withModifier (t : TypeTable) (i : TypeId) (m : Modifier) : TypeTable × TypeId :=
  match t.lookup? i with
  | none => (t, i)
  | some ty => if ty.modifier = m then (t, i) else t.intern { ty with modifier := m }

def unqualified (t : TypeTable) (i : TypeId) : TypeTable × TypeId := t.withModifier i .default

def var (t : TypeTable) (v : VarId) : TypeTable × TypeId := t.intern (.ofShape (.var v))

/-! ### Function types -/

/-- The first function type without modifier that has a signature, among the entries from position
`from_` on, `n` of them. -/
def findFn? (t : TypeTable) (s : Signature) (from_ : Nat) : Nat → Option TypeId
  | 0 => none
  | n + 1 =>
    match t.types[from_]? with
    | some ⟨.fn slot, .default⟩ =>
      if t.signatures[slot]? = some s then some ⟨from_⟩ else findFn? t s (from_ + 1) n
    | _ => findFn? t s (from_ + 1) n

def fn (t : TypeTable) (params : List TypeId) (result : TypeId) : TypeTable × TypeId :=
  let s : Signature := ⟨params, result⟩
  match t.findFn? s 1 (t.types.size - 1) with
  | some i => (t, i)
  | none =>
    { t with signatures := t.signatures.push s }.push (.ofShape (.fn t.signatures.size))

def signature? (t : TypeTable) (i : TypeId) : Option Signature :=
  match t.lookup? i with
  | some ⟨.fn slot, _⟩ => if slot = 0 then none else t.signatures[slot]?
  | _ => none

/-! ### Declared types -/

/-- The type of a declaration, created on first use. Two declarations never share a type, also if
their names are equal. -/
def named (t : TypeTable) (decl : DeclId) (name : Text) : TypeTable × TypeId :=
  match t.byDecl.lookup decl with
  | some i => (t, i)
  | none =>
    let slot := t.names.size
    let (t, i) := { t with names := t.names.push ⟨decl, name⟩ }.push (.ofShape (.named decl slot))
    ({ t with byDecl := (decl, i) :: t.byDecl }, i)

def namedInfo? (t : TypeTable) (i : TypeId) : Option NamedType :=
  match t.lookup? i with
  | some ⟨.named _ slot, _⟩ => if slot = 0 then none else t.names[slot]?
  | _ => none

/-! ### Built-in types -/

/-- Shapes of the built-in types in the order of their identifiers, from one on. -/
def builtinShapes : List Shape :=
  [.plain .error, .plain .unit, .plain .none, .plain .bool, .plain .char, .plain .str,
   .int 0, .uint 0, .float 32, .float 64,
   .plain .untypedInt, .plain .untypedUint, .plain .untypedFloat,
   .int 8, .uint 8, .int 16, .uint 16, .int 32, .uint 32, .int 64, .uint 64]

/-- Makes sure that the built-in types are there. -/
def seed (t : TypeTable) : TypeTable :=
  builtinShapes.foldl (fun t s => (t.intern (.ofShape s)).1) t

/-- A table with the reserved entries only. -/
def reserved : TypeTable := ⟨#[.ofShape (.plain .invalid)], #[⟨[], 0⟩], #[⟨0, .empty⟩], []⟩

def initial : TypeTable := reserved.seed

/-- The type of each declaration, read off the entries. Of several types of one declaration the last
one counts. -/
def declIndex (types : List Ty) : List (DeclId × TypeId) :=
  types.zipIdx.foldl (fun acc (ty, i) =>
    match ty.shape with
    | .named decl _ => (decl, ⟨i⟩) :: acc
    | _ => acc) []

/-- Rebuilds a table from its entries. The first entry of each list is the reserved one. -/
def restore (types : List Ty) (signatures : List Signature) (names : List NamedType) : TypeTable :=
  let all := Ty.ofShape (.plain .invalid) :: types.drop 1
  seed ⟨all.toArray, if signatures.isEmpty then reserved.signatures else signatures.toArray,
    if names.isEmpty then reserved.names else names.toArray, declIndex all⟩

end TypeTable

/-! ### Identifiers of the built-in types -/

namespace Builtin

def error : TypeId := 1
def unit : TypeId := 2
def none : TypeId := 3
def bool : TypeId := 4
def char : TypeId := 5
def str : TypeId := 6
def int : TypeId := 7
def uint : TypeId := 8
def f32 : TypeId := 9
def f64 : TypeId := 10
def untypedInt : TypeId := 11
def untypedUint : TypeId := 12
def untypedFloat : TypeId := 13

/-- The built-in types by the names that programs use. -/
def byName : List (String × TypeId) :=
  [("int", int), ("uint", uint), ("i8", 14), ("u8", 15), ("i16", 16), ("u16", 17), ("i32", 18),
   ("u32", 19), ("i64", 20), ("u64", 21), ("f32", f32), ("f64", f64), ("bool", bool),
   ("char", char), ("str", str), ("none", none)]

def ofName? (name : Text) : Option TypeId :=
  (byName.find? fun e => Text.ofString e.1 == name).map Prod.snd

end Builtin

end UnitCheck
