import UnitCheck.Data.Pack
import UnitCheck.Id

/-!
# Codecs

A codec writes values of a type as packed values and reads them back. Records are described once, by
their fields; `Codec.record` then writes the fields in order and reads them generously: in any
order, the last one of a name counting, unknown ones passed over and missing ones left at a given
value. -/

namespace UnitCheck

structure Codec (α : Type) where
  encode : α → Pack
  decode? : Pack → Option α

namespace Codec

variable {α β : Type}

/-! ### Simple values -/

def uint8 : Codec UInt8 := ⟨.ofUInt8, Pack.toUInt8?⟩
def uint16 : Codec UInt16 := ⟨.ofUInt16, Pack.toUInt16?⟩
def uint32 : Codec UInt32 := ⟨.ofUInt32, Pack.toUInt32?⟩
def bool : Codec Bool := ⟨.bool, Pack.toBool?⟩
def text : Codec Text := ⟨.str, Pack.toText?⟩
def bytes : Codec Text := ⟨fun t => .bin t.bytes, Pack.toText?⟩

def map (c : Codec α) (f : α → β) (g : β → α) : Codec β :=
  ⟨fun b => c.encode (g b), fun p => (c.decode? p).map f⟩

def word : Codec Nat := ⟨.uint 4, Pack.toWord? 32⟩

def ident {k : IdKind} : Codec (Id k) := word.map .mk Id.index

def scopeId : Codec (Option ScopeId) := uint32.map ScopeId.ofWord? ScopeId.toWord?

def items (c : Codec α) : Codec (Option (List α)) :=
  ⟨Pack.ofItems c.encode, Pack.toItems? c.decode?⟩

/-- A list that is written even if it is empty; one that is left out is empty. -/
def list (c : Codec α) : Codec (List α) := (items c).map (·.getD []) some

def optional (c : Codec α) : Codec (Option α) :=
  ⟨fun
    | none => .nil
    | some a => c.encode a,
   fun
    | .nil => some none
    | p => (c.decode? p).map some⟩

/-- A map from identifiers, the newest entry first. It is written in the order of identifiers. -/
def idMap {k : IdKind} (c : Codec α) : Codec (List (Id k × α)) :=
  ⟨fun es => .map ((Id.latest es).map fun (i, a) => (ident.encode i, c.encode a)),
   fun
    | .nil => some []
    | .map es => (es.mapM fun (i, a) => do return (← ident.decode? i, ← c.decode? a)).map
        List.reverse
    | _ => none⟩

/-- Values that contain others of their kind, by codecs for values of at most a depth. Reading goes
as deep as the packed value does. -/
def byDepth (c : Nat → Codec α) (depth : α → Nat) : Codec α :=
  ⟨fun a => (c (depth a)).encode a, fun p => (c p.depth).decode? p⟩

/-! ### Records -/

structure RecordField (α : Type) where
  name : String
  /-- The packed field, or nothing if it is left out. -/
  write : α → Option Pack
  /-- Sets the field to what was packed. -/
  read : Pack → α → Option α

def field (name : String) (c : Codec β) (get : α → β) (set : α → β → α) : RecordField α :=
  ⟨name, fun a => some (c.encode (get a)), fun p a => (c.decode? p).map fun b => set a b⟩

def fieldUnless (isOmitted : β → Bool) (name : String) (c : Codec β) (get : α → β)
    (set : α → β → α) : RecordField α :=
  ⟨name, fun a => if isOmitted (get a) then none else some (c.encode (get a)),
   fun p a => (c.decode? p).map fun b => set a b⟩

def idUnlessZero {k : IdKind} (name : String) (get : α → Id k) (set : α → Id k → α) :
    RecordField α :=
  fieldUnless (fun i => !i.isValid) name ident get set

def readFields (fields : List (RecordField α)) : List (Text × Pack) → α → Option α
  | [], a => some a
  | (k, p) :: given, a =>
    match fields.find? fun f => Text.ofString f.name == k with
    | none => readFields fields given a
    | some f => (f.read p a).bind (readFields fields given)

/-- A record; fields that are missing are those of `start`. -/
def record (start : α) (fields : List (RecordField α)) : Codec α :=
  ⟨fun a => .map (fields.filterMap fun f => (f.write a).map fun p =>
    (.str (Text.ofString f.name), p)),
   fun p => (p.record? (fields.map RecordField.name)).bind fun r =>
     readFields fields r.fields start⟩

end Codec

end UnitCheck
