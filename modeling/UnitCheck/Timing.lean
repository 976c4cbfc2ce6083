import UnitCheck.Data.Json
import UnitCheck.Text.Decimal

/-!
# Timings

How long the passes over units took. A timer never looks at a clock: whoever uses it says what time
it is, in nanoseconds.
-/

namespace UnitCheck

structure Phase where
  unit : Text
  name : Text
  started : Int
  /-- Zero until the pass is finished. -/
  elapsed : Int
  note : Text
deriving DecidableEq

/-- The passes so far. A timer that is off keeps nothing. -/
structure Timer where
  isOn : Bool
  phases : Array Phase
deriving Inhabited

structure Timings where
  total : Int
  phases : List Phase
deriving DecidableEq

namespace Timings

def empty : Timings := ⟨0, []⟩

def ofPhases (ps : List Phase) : Timings := ⟨(ps.map Phase.elapsed).foldr (· + ·) 0, ps⟩

def members (t : Timings) : List (Option (String × Json)) :=
  [Json.field "total_ms" (.number (Decimal.millisShortest t.total)),
   Json.field "phases" (Json.orNull (t.phases.map fun p => .object [
    Json.fieldIf (!p.unit.isEmpty) "unit" (.str p.unit), Json.field "name" (.str p.name),
    Json.field "duration_ms" (.number (Decimal.millisShortest p.elapsed)),
    Json.fieldIf (!p.note.isEmpty) "note" (.str p.note)]))]

/-- A line of a summary: what was timed, filled up to 28 characters, and the time. -/
def summaryLine (label : Text) (ns : Int) (note : Text) : Text :=
  let fill := Text.times (28 - label.runes.length) " "
  let time := (Decimal.millisFixed 2 ns).padLeft 7 32
  "  " ++ label ++ fill ++ " " ++ time ++ " ms" ++
    (if note.isEmpty then .empty else "  // " ++ note) ++ "\n"

def summary (t : Timings) : Text :=
  "timings:\n" ++ Text.concat (t.phases.map fun p =>
    summaryLine (if p.unit.isEmpty then p.name else p.unit ++ ":" ++ p.name) p.elapsed p.note) ++
  summaryLine "total" t.total .empty

end Timings

namespace Timer

def empty : Timer := ⟨true, #[]⟩

def off : Timer := ⟨false, #[]⟩

def start (t : Timer) (unit name : Text) (now : Int) : Timer × Option Nat :=
  if t.isOn then
    ({ t with phases := t.phases.push ⟨unit, name, now, 0, .empty⟩ }, some t.phases.size)
  else (t, none)

/-- Finishes a pass; a position without a pass is passed over. -/
def stop (t : Timer) (i : Nat) (note : Text) (now : Int) : Timer :=
  { t with phases := t.phases.modify i fun p =>
    { p with elapsed := now - p.started, note := note } }

def report (t : Timer) : Timings := .ofPhases t.phases.toList

def unitReport (t : Timer) (unit : Text) : Timings :=
  .ofPhases (t.phases.toList.filter fun p => p.unit == unit)

def byPass (t : Timer) : List (Text × Int) :=
  ((t.phases.toList.map Phase.name).eraseDups).map fun n =>
    (n, ((t.phases.toList.filter fun p => p.name == n).map Phase.elapsed).foldr (· + ·) 0)

end Timer

end UnitCheck
