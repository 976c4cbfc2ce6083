import UnitCheck.Trace.Event

/-!
# Rings of events

A ring keeps the last events of a trace. Its slots are written one after the other and, once all of
them are written, over again from the first one on. The slot to be written next then holds the
oldest event. -/

namespace UnitCheck.Trace

def defaultCapacity : Nat := 4096

structure Ring where
  level : Level
  slots : Array Event
  /-- The slot that is written next. -/
  next : Nat
  /-- Whether all slots were written. -/
  filled : Bool
  next_lt : next < slots.size

namespace Ring

/-- How many slots there are if some number is asked for. Without a positive number it is
`defaultCapacity`. -/
def capacity (asked : Int) : Nat := if 0 < asked then asked.toNat else defaultCapacity

theorem capacity_pos (asked : Int) : 0 < capacity asked := by
  unfold capacity defaultCapacity
  split <;> omega

def ofCapacity (asked : Int) (level : Level) : Ring where
  level := level
  slots := Array.replicate (capacity asked) default
  next := 0
  filled := false
  next_lt := by
    rw [Array.size_replicate]
    exact capacity_pos asked

def put (r : Ring) (e : Event) : Ring :=
  let slots := r.slots.set r.next e r.next_lt
  have hsize : slots.size = r.slots.size := Array.size_set ..
  if h : r.next + 1 = r.slots.size then
    { r with slots, next := 0, filled := true, next_lt := by omega }
  else
    { r with slots, next := r.next + 1, next_lt := by have := r.next_lt; omega }

/-- Takes an event and numbers it, if its scope is recorded. -/
def emit (r : Ring) (number : Nat) (e : Event) : Ring :=
  if r.level.records e.scope then r.put { e with seq := number } else r

/-- The events that are kept, oldest first. -/
def snapshot (r : Ring) : List Event :=
  let events := r.slots.toList
  if r.filled then events.drop r.next ++ events.take r.next else events.take r.next

/-- What is kept about a unit, or all if no unit is named. -/
def dump (r : Ring) (unit : Text) (format : Format) : Except Abort Text :=
  format.lines (r.snapshot.filter fun e => unit.isEmpty || e.unit == unit)

end Ring

end UnitCheck.Trace
