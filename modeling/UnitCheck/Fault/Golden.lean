import UnitCheck.Fault.Basic
import UnitCheck.Source.Files

/-!
# Sorted one-line reports

One line for each fault, and one for each note if asked for, sorted by place. The lines do not
depend on the order in which faults were found, which makes them fit for comparing runs.
-/

namespace UnitCheck

structure GoldenLine where
  severity : Text
  code : Text
  path : Text
  line : UInt32
  column : UInt32
  message : Text
deriving DecidableEq

namespace GoldenLine

def toText (g : GoldenLine) : Text :=
  g.severity ++ " " ++ g.code ++ " " ++ g.path ++ ":" ++ Text.ofNat g.line.toNat ++ ":" ++
    Text.ofNat g.column.toNat ++ " " ++ g.message

def cmp (a b : GoldenLine) : Ordering :=
  (Text.cmp a.path b.path).then <|
  (compare a.line.toNat b.line.toNat).then <|
  (compare a.column.toNat b.column.toNat).then <|
  (Text.cmp a.severity b.severity).then <|
  (Text.cmp a.code b.code).then <|
  Text.cmp a.message b.message

def le (a b : GoldenLine) : Bool := (cmp a b).isLE

end GoldenLine

namespace Golden

def flatten (message : Text) : Text := Text.join " " message.fields

/-- The line for a message at a place. A place without a file counts for the unit as a whole, and
a file without content has no lines to count. -/
def lineAt (unit : Text) (files : SourceFiles) (span : Span) (severity code message : Text) :
    GoldenLine :=
  match files.get? span.file with
  | none => ⟨severity, code, unit, 0, 0, flatten message⟩
  | some f =>
    let path := f.path.dropHead "./"
    if f.content.isEmpty then ⟨severity, code, path, 0, 0, flatten message⟩
    else
      let at_ := f.position span.start
      ⟨severity, code, path, at_.line, at_.column, flatten message⟩

def linesOf (unit : Text) (files : SourceFiles) (notes : Bool) (f : Fault) : List GoldenLine :=
  lineAt unit files f.span f.severity.label f.code.id f.message ::
    if notes then f.notes.map fun n => lineAt unit files n.span "note" f.code.id n.message else []

def report (unit : Text) (faults : List Fault) (files : SourceFiles) (notes : Bool) : Text :=
  let lines := (faults.flatMap (linesOf unit files notes)).mergeSort GoldenLine.le
  Text.join "\n" (lines.map GoldenLine.toText)

end Golden

end UnitCheck
