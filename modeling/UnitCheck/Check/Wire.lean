import UnitCheck.Check.Basic
import UnitCheck.Code.Wire

/-!
# Verdicts in files

The packed form of verdicts holds everything but what belongs to one run: where the verdict came
from, how long the check took, and the texts of source files.
-/

namespace UnitCheck.Check

open Codec

/-- The set of values that are copied, as a map to nothing. -/
def copiesCodec : Codec (List ValueId) :=
  (idMap ⟨fun (_ : Unit) => Pack.map [], fun _ => some ()⟩).map
    (fun es => (Id.latest es).map Prod.fst) fun vs => vs.map fun v => (v, ())

def typesCodec {k : IdKind} : Codec (List (Id k × TypeId)) :=
  (idMap ident).map Id.latest fun es => es

def typedCodec : Codec Typing.Typed := record ⟨[], [], [], [], [], 0⟩ [
  field "types" typesCodec Typing.Typed.declTypes ({ · with declTypes := · }),
  field "expr_types" typesCodec Typing.Typed.valueTypes ({ · with valueTypes := · }),
  field "local_types" typesCodec Typing.Typed.localTypes ({ · with localTypes := · }),
  field "auto_copies" copiesCodec Typing.Typed.copies ({ · with copies := · }),
  field "faults" (list Fault.codec) Typing.Typed.faults ({ · with faults := · })]

def codeCodec : Codec LoweredCode := record ⟨.empty .initial, []⟩ [
  field "module" Code.Module.codec (·.module) ({ · with module := · }),
  field "faults" (list Fault.codec) (·.faults) ({ · with faults := · })]

/-- Digests are written as text; one that cannot be read is refused. -/
def digestCodec : Codec Digest :=
  ⟨fun d => .str d.toText, fun p => p.toText?.bind fun t => (Digest.parse t).toOption⟩

def intCodec : Codec Int :=
  ⟨fun n => .int 8 (n % Nat.pow 2 64).toNat,
   fun p => (p.toWord? 64).map fun n =>
    if n < Nat.pow 2 63 then Int.ofNat n else Int.ofNat n - Nat.pow 2 64⟩

namespace Verdict

def codec : Codec Verdict := record (.empty .empty) [
  field "unit" text (·.unit) ({ · with unit := · }),
  field "digest" digestCodec (·.digest) ({ · with digest := · }),
  field "hir" (optional codeCodec) (·.code) ({ · with code := · }),
  field "typed" (optional typedCodec) (·.typed) ({ · with typed := · }),
  field "faults" (list Fault.codec) (·.faults) ({ · with faults := · }),
  fieldUnless (· == 0) "dropped" intCodec (·.dropped) ({ · with dropped := · }),
  field "fatal" bool (·.isFatal) ({ · with isFatal := · })]

def encode (v : Verdict) : List UInt8 := (codec.encode v).encode

def decode? (bs : List UInt8) : Option Verdict :=
  (Pack.decode? bs).bind fun (p, _) => codec.decode? p

end Verdict

end UnitCheck.Check
