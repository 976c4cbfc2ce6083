import UnitCheck.Data.Json
import UnitCheck.Fault.Render

/-!
# Reports for tools

Faults as a JSON document, with as much about their places as is known. Unlike a readable report it
may be cut after a number of faults; those left out count as dropped.
-/

namespace UnitCheck.Report

structure Options where
  pathStyle : PathStyle := .auto
  root : Text := .empty
  notes : Bool := false
  unit : Text := .empty
  /-- Whether to give lines and columns. -/
  positions : Bool := false
  /-- How many faults to report; zero means all. -/
  limit : Nat := 0

def numberField (k : String) (n : Nat) : Option (String × Json) :=
  Json.fieldIf (n != 0) k (Json.ofNat n)

def textField (k : String) (t : Text) : Option (String × Json) :=
  Json.fieldIf (!t.isEmpty) k (.str t)

/-- A place: offsets always, the path if there is a file, lines and columns if its text is known. -/
def location (files : Option SourceFiles) (opts : Options) (s : Span) : Json :=
  let offsets := [Json.field "start_byte" (Json.ofNat s.start.toNat),
    Json.field "end_byte" (Json.ofNat s.stop.toNat)]
  match Render.fileOf files s with
  | none => .object offsets
  | some f =>
    let path := opts.pathStyle.apply opts.root f.path
    let positions := if opts.positions && !f.content.isEmpty then
        let a := f.position s.start
        let b := f.position s.stop
        [numberField "start_line" a.line.toNat, numberField "start_col" a.column.toNat,
          numberField "end_line" b.line.toNat, numberField "end_col" b.column.toNat]
      else []
    .object ([textField "file" path] ++ offsets ++ positions)

/-- A fault. Timings carry what they report in a note, which is always shown. -/
def fault (files : Option SourceFiles) (opts : Options) (f : Fault) : Json :=
  let notes := if opts.notes || f.code == .timings then
      f.notes.map fun n => Json.object [Json.field "message" (.str n.message),
        Json.field "location" (location files opts n.span)]
    else []
  .object [Json.field "severity" (.str f.severity.label), Json.field "code" (.str f.code.id),
    Json.field "title" (.str f.code.title), Json.field "message" (.str f.message),
    Json.field "location" (location files opts f.span),
    Json.fieldIf (!notes.isEmpty) "notes" (.arr notes)]

def ofBag (bag : Bag) (files : Option SourceFiles) (opts : Options) : Json :=
  let items := if 0 < opts.limit then bag.items.toList.take opts.limit else bag.items.toList
  let dropped := bag.dropped + (bag.size - items.length : Nat)
  .object [textField "unit" opts.unit,
    Json.field "diagnostics" (.arr (items.map (fault files opts))),
    Json.field "count" (Json.ofNat items.length),
    Json.fieldIf (dropped != 0) "dropped" (Json.ofInt dropped)]

def text (bag : Bag) (files : Option SourceFiles) (opts : Options) : Text :=
  (ofBag bag files opts).document true

end UnitCheck.Report
