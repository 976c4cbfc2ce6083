import UnitCheck.Check.Basic
import UnitCheck.Code.Document

/-!
# Verdicts as documents

A verdict in JSON, for reading. Types are numbers there, so a map behind everything else says how
each of them is written.
-/

namespace UnitCheck

open Json (field fieldIf)

def Note.toJson (n : Note) : Json :=
  .object [field "span" n.span.toJson, field "msg" (.str n.message)]

def Fault.toJson (f : Fault) : Json :=
  .object [field "severity" (Json.ofNat f.severity.level.toNat),
    field "code" (Json.ofNat f.code.number.toNat), field "message" (.str f.message),
    field "primary" f.span.toJson,
    fieldIf (!f.notes.isEmpty) "notes" (.arr (f.notes.map Note.toJson))]

namespace Check

def typeMap {k : IdKind} (types : List (Id k × TypeId)) : Json :=
  Id.mapJson (types.map fun (i, t) => (i, t.toJson))

def typedJson (t : Typing.Typed) : Json :=
  .object [field "types" (typeMap t.declTypes), field "expr_types" (typeMap t.valueTypes),
    field "local_types" (typeMap t.localTypes),
    field "auto_copies" (Id.mapJson (t.copies.map fun v => (v, .obj []))),
    field "faults" (.arr (t.faults.map Fault.toJson))]

def typeLabels (m : Code.Module) : List (TypeId × Text) :=
  ((List.range m.types.size).drop 1).map fun i => (⟨i⟩, m.types.label ⟨i⟩)

namespace Verdict

def members (v : Verdict) : List (Option (String × Json)) :=
  [field "unit" (.str v.unit), field "digest" (.str v.digest.toText),
   field "hir" (match v.code with
    | none => .null
    | some c => .object [field "module" c.module.toJson,
        field "faults" (.arr (c.faults.map Fault.toJson))]),
   field "typed" ((v.typed.map typedJson).getD .null),
   field "faults" (if v.code.isNone && v.faults.isEmpty then .null
    else .arr (v.faults.map Fault.toJson)),
   fieldIf (v.dropped != 0) "dropped" (Json.ofInt v.dropped),
   field "fatal" (.bool v.isFatal), fieldIf v.isCached "cached" (.bool true),
   field "timing" (.object v.timings.members)]

def toJson (v : Verdict) : Json :=
  let labels := match v.code with
    | none => []
    | some c => typeLabels c.module
  .object (v.members ++ [fieldIf (!labels.isEmpty) "type_labels"
    (Id.mapJson (labels.map fun (i, t) => (i, .str t)))])

end Verdict

end Check

end UnitCheck
