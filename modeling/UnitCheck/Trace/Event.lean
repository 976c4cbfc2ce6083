import UnitCheck.Abort
import UnitCheck.Data.Json
import UnitCheck.Text.Blank
import UnitCheck.Text.Case
import UnitCheck.Text.Decimal
import UnitCheck.Text.Quoted

/-!
# Trace events

What the checker does, as a sequence of events: spans begin and end, and points lie inside of spans.
Each event belongs to a scope, from the whole run down to a single node, and a level says down to
which scope events are recorded.
-/

namespace UnitCheck.Trace

/-- Whether an event begins or ends a span or stands alone. -/
structure EventKind where
  code : UInt8
deriving DecidableEq, Inhabited

namespace EventKind

@[match_pattern] def start : EventKind := ⟨1⟩
@[match_pattern] def finish : EventKind := ⟨2⟩
@[match_pattern] def point : EventKind := ⟨3⟩

def toText : EventKind → Text
  | start => "begin"
  | finish => "end"
  | point => "point"
  | _ => "unknown"

def mark : EventKind → Text
  | start => "> "
  | finish => "< "
  | _ => ". "

end EventKind

/-- How much an event is about; greater is finer. -/
structure Scope where
  depth : UInt8
deriving DecidableEq, Inhabited

namespace Scope

@[match_pattern] def run : Scope := ⟨1⟩
@[match_pattern] def unit : Scope := ⟨2⟩
@[match_pattern] def pass : Scope := ⟨3⟩
@[match_pattern] def node : Scope := ⟨4⟩

def toText : Scope → Text
  | run => "driver"
  | unit => "unit"
  | pass => "pass"
  | node => "node"
  | _ => "unknown"

end Scope

/-- How much is recorded: runs and units, passes too or nodes too. Passes at the level `error` are
there to be shown for units that fail. -/
structure Level where
  code : UInt8
deriving DecidableEq, Inhabited

namespace Level

@[match_pattern] def off : Level := ⟨0⟩
@[match_pattern] def error : Level := ⟨1⟩
@[match_pattern] def phase : Level := ⟨2⟩
@[match_pattern] def detail : Level := ⟨3⟩
@[match_pattern] def debug : Level := ⟨4⟩

def toText : Level → Text
  | off => "off"
  | error => "error"
  | phase => "phase"
  | detail => "detail"
  | debug => "debug"
  | _ => "unknown"

def all : List Level := [off, error, phase, detail, debug]

def parse (t : Text) : Except Text Level :=
  let word := t.trim.lower
  if word.isEmpty then .ok off
  else match all.find? fun l => l.toText == word with
    | some l => .ok l
    | none => .error ("invalid trace level " ++ word.quoted ++
        " (expected off|error|phase|detail|debug)")

def records (l : Level) (s : Scope) : Bool :=
  match l with
  | off => false
  | phase => s.depth ≤ Scope.unit.depth
  | error | detail => s.depth ≤ Scope.pass.depth
  | _ => true

end Level

/-- Where events go: written as they come, kept for later, or both. -/
inductive Mode
  | stream
  | ring
  | both
deriving DecidableEq, Inhabited

namespace Mode

def toText : Mode → Text
  | stream => "stream"
  | ring => "ring"
  | both => "both"

def parse (t : Text) : Except Text Mode :=
  let word := t.trim.lower
  if word.isEmpty then .ok stream
  else match [stream, ring, both].find? fun m => m.toText == word with
    | some m => .ok m
    | none => .error ("invalid trace mode " ++ word.quoted ++ " (expected stream|ring|both)")

end Mode

inductive Format
  | text
  /-- One JSON object a line. -/
  | objects
deriving DecidableEq, Inhabited

def Format.parse (t : Text) : Except Text Format :=
  let word := t.trim.lower
  if word.isEmpty || word == "text" then .ok .text
  else if word == "ndjson" || word == "json" then .ok .objects
  else .error ("invalid trace format " ++ t.quoted ++ " (expected text|ndjson)")

/-! ### Times -/

/-- A point in time, in seconds and nanoseconds since the start of 1970. -/
structure Instant where
  seconds : Int
  nanos : Int
deriving DecidableEq, Inhabited

namespace Instant

def normal (t : Instant) : Instant := ⟨t.seconds + t.nanos / 1000000000, t.nanos % 1000000000⟩

/-- The year, month and day that lie `days` after the start of 1970. Years are counted from March
on, so that a leap day comes last. -/
def civil (days : Int) : Int × Nat × Nat :=
  let shifted := days + 719468
  let era := shifted / 146097
  let day := (shifted % 146097).toNat
  let year := (day - day / 1460 + day / 36524 - day / 146096) / 365
  let dayOfYear := day - (365 * year + year / 4 - year / 100)
  let month := (5 * dayOfYear + 2) / 153
  let dayOfMonth := dayOfYear - (153 * month + 2) / 5 + 1
  let calendarMonth := if month < 10 then month + 3 else month - 9
  (era * 400 + year + (if calendarMonth ≤ 2 then 1 else 0), calendarMonth, dayOfMonth)

def digits (width : Nat) (n : Nat) : Text := (Text.ofNat n).padLeft width 48

def yearText (y : Int) : Text :=
  if y < 0 then "-" ++ digits 4 y.natAbs else digits 4 y.toNat

def fraction (nanos : Nat) : Text :=
  if nanos = 0 then .empty
  else "." ++ ⟨((digits 9 nanos).bytes.reverse.dropWhile (· == 48)).reverse⟩

def toText (t : Instant) : Text :=
  let t := t.normal
  let (y, m, d) := civil (t.seconds / 86400)
  let s := (t.seconds % 86400).toNat
  yearText y ++ "-" ++ digits 2 m ++ "-" ++ digits 2 d ++ "T" ++ digits 2 (s / 3600) ++ ":" ++
    digits 2 (s / 60 % 60) ++ ":" ++ digits 2 (s % 60) ++ fraction t.nanos.toNat ++ "Z"

end Instant

/-! ### Events -/

structure Event where
  time : Instant
  /-- The position in the trace, which the place it is written to gives. -/
  seq : Nat
  kind : EventKind
  scope : Scope
  /-- Empty outside of units. -/
  unit : Text
  span : Nat
  parent : Nat
  name : Text
  detail : Text
  /-- How long the span took, in nanoseconds, for an event that ends one. -/
  elapsed : Int
  /-- Further facts, ordered by key. -/
  extra : List (Text × Text)
deriving DecidableEq, Inhabited

def setExtra (k v : Text) : List (Text × Text) → List (Text × Text)
  | [] => [(k, v)]
  | (k', v') :: rest =>
    match k.cmp k' with
    | .lt => (k, v) :: (k', v') :: rest
    | .eq => (k, v) :: rest
    | .gt => (k', v') :: setExtra k v rest

namespace Event

/-- An event as a line of text, indented by its scope. There is no scope around a whole run. -/
def textLine (e : Event) : Except Abort Text :=
  if e.scope.depth = 0 then .error .negativeIndent
  else
    let facts := e.extra.map fun (k, v) => k ++ "=" ++ v
    .ok (Text.concat [
      "#", Instant.digits 6 e.seq, " ",
      if e.unit.isEmpty then .empty else e.unit ++ " ",
      Text.times (e.scope.depth.toNat - 1) "  ", e.kind.mark, e.name,
      if e.detail.isEmpty then .empty else " (" ++ e.detail ++ ")",
      if facts.isEmpty then .empty else " \x7b" ++ Text.join ", " facts ++ "\x7d",
      if e.kind = .finish then " " ++ Decimal.millisFixed 3 e.elapsed ++ "ms" else .empty,
      "\n"])

def toJson (e : Event) : Json :=
  .object [Json.field "time" (.str e.time.toText), Json.field "seq" (Json.ofNat e.seq),
    Json.field "kind" (.str e.kind.toText), Json.field "scope" (.str e.scope.toText),
    Json.fieldIf (!e.unit.isEmpty) "unit" (.str e.unit),
    Json.fieldIf (e.span != 0) "span" (Json.ofNat e.span),
    Json.fieldIf (e.parent != 0) "parent" (Json.ofNat e.parent),
    Json.field "name" (.str e.name), Json.fieldIf (!e.detail.isEmpty) "detail" (.str e.detail),
    Json.fieldIf (e.elapsed != 0) "elapsed_ms" (.number (Decimal.millisShortest e.elapsed)),
    Json.fieldIf (!e.extra.isEmpty) "extra" (.obj (e.extra.map fun (k, v) => (k, .str v)))]

def line (e : Event) : Format → Except Abort Text
  | .text => e.textLine
  | .objects => .ok (e.toJson.document false)

end Event

def Format.lines (f : Format) (es : List Event) : Except Abort Text := do
  return Text.concat (← es.mapM fun e => e.line f)

end UnitCheck.Trace
