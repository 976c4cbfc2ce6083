import UnitCheck.Check.Document
import UnitCheck.Check.Wire

/-!
# Verdicts as output

A verdict is written as a packed value, which can be read back, or as a JSON document, which cannot.
-/

namespace UnitCheck.Check

structure OutputFormat where
  code : UInt8
deriving DecidableEq

namespace OutputFormat

@[match_pattern] def packed : OutputFormat := ⟨1⟩
@[match_pattern] def json : OutputFormat := ⟨2⟩

def toText : OutputFormat → Text
  | packed => "msgpack"
  | json => "json"
  | _ => "unknown"

def parse (t : Text) : Except Text OutputFormat :=
  let word := t.lower
  if word.isEmpty || word == "msgpack" || word == "mp" then .ok packed
  else if word == "json" then .ok json
  else .error ("invalid format: " ++ t.quoted ++ " (expected: msgpack|json)")

end OutputFormat

inductive ReadError
  | writeOnly
  | unreadable
deriving DecidableEq

def ReadError.message : ReadError → Option Text
  | writeOnly => some "json reports are write-only"
  | unreadable => none

namespace Verdict

/-- Writes a verdict in a format. Format zero means the packed one. -/
def write (format : OutputFormat) (indent : Bool) (v : Verdict) : Except Text (List UInt8) :=
  match format with
  | .json => .ok (v.toJson.document indent).bytes
  | .packed | ⟨0⟩ => .ok v.encode
  | f => .error ("unsupported format " ++ f.toText)

/-- Reads a verdict in a format; documents are for reading by people only. -/
def read (format : OutputFormat) (bs : List UInt8) : Except ReadError Verdict :=
  if format = .json then .error .writeOnly
  else match decode? bs with
    | some v => .ok v
    | none => .error .unreadable

end Verdict

end UnitCheck.Check
