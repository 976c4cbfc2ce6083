import UnitCheck.Trace.Ring

/-!
# Tracers

A tracer records events of the scopes that its level asks for. It writes them as they come, keeps
the last ones in a ring, or does both; each of these numbers the events it takes from one common
count. What is written can be read off the record.
-/

namespace UnitCheck.Trace

structure Settings where
  level : Level
  mode : Mode
  format : Format
  /-- The file to write to; `-` or nothing for the error output. -/
  output : Text
  /-- How many events are kept; without a positive number it is `defaultCapacity`. -/
  capacity : Int := 0

structure Tracer where
  level : Level
  mode : Mode
  format : Format
  /-- The events that were recorded. -/
  log : Array Event
  /-- The events that are kept, if any are. -/
  ring : Option Ring
  /-- How many spans were started. -/
  spans : Nat
deriving Inhabited

namespace Tracer

def off : Tracer := ⟨.off, .stream, .text, #[], none, 0⟩

/-- A tracer without events. Passes that are kept for units that fail are only kept; the name of the
output may call for JSON. -/
def ofSettings (s : Settings) : Tracer :=
  let mode := if s.level = .error then .ring else s.mode
  { off with
    level := s.level
    mode
    format := if s.output.endsWith ".ndjson" then .objects else s.format
    ring := if s.level = .off || mode = .stream then none
      else some (.ofCapacity s.capacity s.level) }

def writes (t : Tracer) : Bool := t.level != .off && t.mode != .ring

def keeps (t : Tracer) : Bool := t.ring.isSome

/-- How many numbers a recorded event takes. -/
def takers (t : Tracer) : Nat := if t.mode = .both then 2 else 1

/-- Hands an event on. What is written takes its number before what is kept. -/
def emit (t : Tracer) (e : Event) : Tracer :=
  { t with
    log := if t.level.records e.scope then t.log.push e else t.log
    ring := t.ring.map (·.emit (t.takers * (t.log.size + 1)) e) }

def written (t : Tracer) : List Event :=
  if t.writes then t.log.toList.zipIdx.map fun (e, i) => { e with seq := t.takers * i + 1 } else []

def stream (t : Tracer) : Except Abort Text := t.format.lines t.written

def kept (t : Tracer) : List Event := (t.ring.map Ring.snapshot).getD []

def dump (t : Tracer) (unit : Text) (format : Format) : Except Abort Text :=
  match t.ring with
  | some r => r.dump unit format
  | none => .ok .empty

end Tracer

/-! ### Spans -/

/-- Where spans are started: inside of which span, and in which unit. -/
structure Context where
  parent : Nat
  unit : Text
deriving DecidableEq, Inhabited

def Context.root : Context := ⟨0, .empty⟩

structure OpenSpan where
  id : Nat
  parent : Nat
  scope : Scope
  unit : Text
  name : Text
  started : Int
  extra : List (Text × Text)
deriving DecidableEq

def Instant.ofNanos (ns : Int) : Instant := ⟨0, ns⟩

namespace Tracer

/-- Starts a span. Spans of scopes that are not recorded do not exist, and what is started inside of
them belongs to the span around. -/
def start (t : Tracer) (c : Context) (scope : Scope) (name : Text) (now : Int) :
    Tracer × Context × Option OpenSpan :=
  if t.level.records scope then
    let s : OpenSpan := ⟨t.spans + 1, c.parent, scope, c.unit, name, now, []⟩
    ({ t with spans := s.id }.emit
        ⟨.ofNanos now, 0, .start, scope, c.unit, s.id, c.parent, name, .empty, 0, []⟩,
      { c with parent := s.id }, some s)
  else (t, c, none)

def recordsPoints (t : Tracer) : Bool := t.level.records .node

def point (t : Tracer) (s : Option OpenSpan) (name detail : Text) (now : Int) : Tracer :=
  match s with
  | none => t
  | some s => t.emit ⟨.ofNanos now, 0, .point, .node, s.unit, 0, s.id, name, detail, 0, []⟩

def finish (t : Tracer) (s : Option OpenSpan) (detail : Text) (now : Int) : Tracer :=
  match s with
  | none => t
  | some s => t.emit ⟨.ofNanos now, 0, .finish, s.scope, s.unit, s.id, s.parent, s.name, detail,
      now - s.started, s.extra⟩

end Tracer

def OpenSpan.set (s : OpenSpan) (k v : Text) : OpenSpan := { s with extra := setExtra k v s.extra }

end UnitCheck.Trace
