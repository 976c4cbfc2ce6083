import UnitCheck.Fault.Bag
import UnitCheck.Source.Files
import UnitCheck.Text.Width

/-!
# Readable reports

`Render.pretty` shows each fault with the source lines around it and marks under the place it is
about; `Render.short` gives each fault one line. Columns of marks are measured in cells of the
screen, after tabs have been expanded in the same way as in the line above.
-/

namespace UnitCheck

inductive PathStyle
  /-- As recorded, but a long path by its last part only. -/
  | auto
  | asRecorded
  /-- Below a base directory where possible. -/
  | relative
  | lastPart
deriving DecidableEq

def PathStyle.autoLimit : Nat := 40

def PathStyle.apply (s : PathStyle) (root path : Text) : Text :=
  match s with
  | .asRecorded => path
  | .relative =>
    if root.isEmpty then path
    else match Path.below? root path with
      | some rel => if rel.startsWith ".." then path else rel
      | none => path
  | .lastPart => Path.base path
  | .auto => if PathStyle.autoLimit < path.size then Path.base path else path

namespace Render

structure Options where
  color : Bool := false
  /-- How many lines to show on either side of the marked one. -/
  context : Nat := 0
  pathStyle : PathStyle := .auto
  root : Text := .empty
  notes : Bool := false
  /-- Names the unit in faults without a file. -/
  unit : Text := .empty
deriving Inhabited

/-! ### Colours -/

/-- A text style of the terminal: the codes that switch it on and off. -/
structure Style where
  on : String
  off : String

def Style.red : Style := ⟨"31;1", "0;22"⟩
def Style.yellow : Style := ⟨"33;1", "0;22"⟩
def Style.greenBold : Style := ⟨"32;1", "0;22"⟩
def Style.blueBold : Style := ⟨"34;1", "0;22"⟩
def Style.magenta : Style := ⟨"35", "0"⟩
def Style.cyan : Style := ⟨"36", "0"⟩
def Style.bold : Style := ⟨"1", "22"⟩
def Style.blue : Style := ⟨"34", "0"⟩

def Style.paint (s : Style) (color : Bool) (t : Text) : Text :=
  if color then "\x1b[" ++ s.on ++ "m" ++ t ++ "\x1b[" ++ s.off ++ "m" else t

def severityStyle : Severity → Style
  | .error => .red
  | .warning => .yellow
  | .debug => .magenta
  | _ => .cyan

/-! ### Places -/

def fileOf (files : Option SourceFiles) (s : Span) : Option SourceFile :=
  files.bind (·.get? s.file)

def offsets (s : Span) : Text := "@" ++ Text.ofNat s.start.toNat ++ ".." ++ Text.ofNat s.stop.toNat

/-- Path, line and column, or what can be said without the text of the file. -/
def place (files : Option SourceFiles) (opts : Options) (s : Span) : Text :=
  match fileOf files s with
  | none =>
    let unit : Text := if opts.unit.isEmpty then "<unit>" else opts.unit
    if s.isZero then unit else unit ++ offsets s
  | some f =>
    let path := opts.pathStyle.apply opts.root f.path
    if f.content.isEmpty then path ++ offsets s
    else
      let p := f.position s.start
      path ++ ":" ++ Text.ofNat p.line.toNat ++ ":" ++ Text.ofNat p.column.toNat

/-! ### Source lines -/

def tabWidth : Nat := 4

/-- The runes of a line with tabs expanded, from column `col` on. -/
def expandRunes : Nat → List Rune → List Text
  | _, [] => []
  | col, r :: rs =>
    if r.code == 9 then
      let n := tabWidth - col % tabWidth
      Text.times n " " :: expandRunes (col + n) rs
    else Text.ofCode r.code :: expandRunes (col + Width.ofCode r.code) rs

def expandTabs (t : Text) : Text :=
  if t.bytes.contains 9 then Text.concat (expandRunes 0 t.runes) else t

/-- The part of a line that a span covers: the bytes from `from_` up to `past`. -/
structure Extent where
  from_ : Nat
  past : Nat
deriving DecidableEq

/-- The part of the first line of a span that the span covers. Positions are words and may lie
outside the line; what is marked does not. -/
def extentOf (start stop : Position) (lineSize : Nat) : Extent :=
  let from_ := min (start.column.toNat - 1) lineSize
  let past := if stop.line == start.line then min (stop.column.toNat - 1) lineSize else lineSize
  ⟨from_, max past from_⟩

/-- How far the marks are indented and how many there are; at least one. -/
def marks (line : Text) (e : Extent) : Nat × Nat :=
  let pad := (expandTabs (line.take e.from_)).width
  let wide := (expandTabs ((line.take e.past).drop e.from_)).width
  (pad, max wide 1)

def markText (n : Nat) : Text := "^" ++ Text.times (n - 1) "~"

/-- The lines around a span with marks under the first line of the span. -/
def snippet (files : Option SourceFiles) (opts : Options) (s : Span) : List Text :=
  match fileOf files s with
  | none => []
  | some f =>
    if f.content.isEmpty then []
    else
      let start := f.position s.start
      let stop := f.position s.stop
      let main := start.line.toNat
      let first := main - min opts.context (main - 1)
      let last := main + opts.context
      let gutter := (Text.ofNat last).size
      let paint := fun t : Text => Style.blue.paint opts.color t
      (List.range' first (last + 1 - first)).flatMap fun n =>
        let line := f.line n
        if line.isEmpty && n != main then []
        else
          let shown := " " ++ paint ((Text.ofNat n).padLeft gutter 32 ++ " |") ++ " " ++
            expandTabs line ++ "\n"
          if n != main then [shown]
          else
            let (pad, width) := marks line (extentOf start stop line.size)
            [shown, " " ++ paint (Text.times gutter " " ++ " |") ++ " " ++ Text.times pad " " ++
              Style.red.paint opts.color (markText width) ++ "\n"]

/-! ### Reports -/

def noteLines (files : Option SourceFiles) (opts : Options) (n : Note) : List Text :=
  let head := "  " ++ Style.cyan.paint opts.color "note" ++ ": "
  if n.span.isZero then [head ++ n.message ++ "\n"]
  else (head ++ place files opts n.span ++ ": " ++ n.message ++ "\n") :: snippet files opts n.span

/-- Everything shown for one fault. A note of timings carries the data and is always shown. -/
def faultLines (files : Option SourceFiles) (opts : Options) (f : Fault) : List Text :=
  let head := place files opts f.span ++ ": " ++
    (severityStyle f.severity).paint opts.color f.severity.toText ++ " " ++
    Style.bold.paint opts.color f.code.id ++ ": " ++ f.message ++ "\n"
  let notes := if opts.notes || f.code == .timings then f.notes.flatMap (noteLines files opts)
    else []
  head :: snippet files opts f.span ++ notes

def pretty (bag : Bag) (files : Option SourceFiles) (opts : Options) : Text :=
  let tail : List Text :=
    if 0 < bag.dropped then
      ["... " ++ Text.ofInt bag.dropped ++ " more diagnostics not shown\n"]
    else []
  Text.concat (bag.items.toList.flatMap (faultLines files opts) ++ tail)

def short (bag : Bag) (files : Option SourceFiles) (opts : Options) : Text :=
  Text.concat (bag.items.toList.map fun f =>
    place files opts f.span ++ ": " ++ f.severity.label ++ " " ++ f.code.id ++ ": " ++ f.message ++
      "\n")

end Render

end UnitCheck
