import UnitCheck.Data.Codec
import UnitCheck.Data.Json
import UnitCheck.Ty.Table

/-!
# Type tables in files

A type is written as a flat row with one field for each thing that some type has; what a type does
not have is zero and left out. A table is written as the rows of its three lists.
-/

namespace UnitCheck

open Codec

structure TypeRow where
  kind : UInt8 := 0
  elem : TypeId := 0
  count : UInt32 := 0
  width : UInt8 := 0
  isMut : Bool := false
  storage : UInt8 := 0
  modifier : UInt8 := 0
  decl : DeclId := 0
  /-- The entry with the signature or the name, or the number of a variable. -/
  payload : Nat := 0
deriving DecidableEq

namespace Ty

def toRow (t : Ty) : TypeRow :=
  let row : TypeRow := { kind := t.kind.code, modifier := t.modifier.code }
  match t.shape with
  | .plain _ => row
  | .int w | .uint w | .float w => { row with width := w }
  | .array s e n => { row with storage := s.toCode, elem := e, count := n }
  | .reference m e => { row with isMut := m, elem := e }
  | .pointer e | .optional e => { row with elem := e }
  | .named d s => { row with decl := d, payload := s }
  | .fn s => { row with payload := s }
  | .var v => { row with payload := v.index }

def ofRow (r : TypeRow) : Ty :=
  let shape : Shape := match Shape.ofKind ⟨r.kind⟩ with
    | .int _ => .int r.width
    | .uint _ => .uint r.width
    | .float _ => .float r.width
    | .array .. => .array (.ofCode r.storage) r.elem r.count
    | .reference .. => .reference r.isMut r.elem
    | .pointer _ => .pointer r.elem
    | .optional _ => .optional r.elem
    | .named .. => .named r.decl r.payload
    | .fn _ => .fn r.payload
    | .var _ => .var ⟨r.payload⟩
    | .plain k => .plain k
  ⟨shape, ⟨r.modifier⟩⟩

def toJson (t : Ty) : Json :=
  let r := t.toRow
  let number := fun (k : String) (n : Nat) => Json.fieldIf (n != 0) k (Json.ofNat n)
  .object [Json.field "kind" (Json.ofNat r.kind.toNat), number "elem" r.elem.index,
    number "count" r.count.toNat, number "width" r.width.toNat,
    Json.fieldIf r.isMut "mutable" (.bool true), number "array" r.storage.toNat,
    number "modifier" r.modifier.toNat, number "decl" r.decl.index,
    number "payload" r.payload]

end Ty

/-! ### Packed form -/

def TypeRow.codec : Codec TypeRow := record {} [
  field "kind" uint8 (·.kind) ({ · with kind := · }),
  idUnlessZero "elem" (·.elem) ({ · with elem := · }),
  fieldUnless (· == 0) "count" uint32 (·.count) ({ · with count := · }),
  fieldUnless (· == 0) "width" uint8 (·.width) ({ · with width := · }),
  fieldUnless not "mutable" bool (·.isMut) ({ · with isMut := · }),
  fieldUnless (· == 0) "array" uint8 (·.storage) ({ · with storage := · }),
  fieldUnless (· == 0) "modifier" uint8 (·.modifier) ({ · with modifier := · }),
  idUnlessZero "decl" (·.decl) ({ · with decl := · }),
  fieldUnless (· == 0) "payload" word (·.payload) ({ · with payload := · })]

def Ty.codec : Codec Ty := TypeRow.codec.map .ofRow Ty.toRow

def Signature.codec : Codec Signature := record ⟨[], 0⟩ [
  field "params" (list ident) (·.params) ({ · with params := · }),
  field "result" ident (·.result) ({ · with result := · })]

/-- Signatures. The first one is the reserved one, which has no list of parameters at all. -/
def Signature.listCodec : Codec (List Signature) :=
  ⟨fun ss => .list (reserved :: (ss.drop 1).map Signature.codec.encode),
   (list Signature.codec).decode?⟩
where
  reserved : Pack := .map [(.str "params", .nil), (.str "result", .ofUInt32 0)]

def NamedType.codec : Codec NamedType := record ⟨0, .empty⟩ [
  field "decl" ident (·.decl) ({ · with decl := · }),
  field "name" text (·.name) ({ · with name := · })]

namespace TypeTable

structure Rows where
  types : List Ty
  signatures : List Signature
  names : List NamedType

def Rows.codec : Codec Rows := record ⟨[], [], []⟩ [
  field "types" (list Ty.codec) (·.types) ({ · with types := · }),
  field "fns" Signature.listCodec (·.signatures) ({ · with signatures := · }),
  field "named" (list NamedType.codec) (·.names) ({ · with names := · })]

def rows (t : TypeTable) : Rows := ⟨t.types.toList, t.signatures.toList, t.names.toList⟩

def codec : Codec TypeTable := Rows.codec.map (fun r => restore r.types r.signatures r.names) rows

def encode (t : TypeTable) : List UInt8 := (codec.encode t).encode

def decode? (bs : List UInt8) : Option TypeTable :=
  (Pack.decode? bs).bind fun (p, _) => codec.decode? p

end TypeTable

end UnitCheck
