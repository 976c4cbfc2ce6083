import UnitCheck.Text.Basic

/-!
# Spans

A span is a half-open range of byte offsets in one file. File zero is no file, and the all-zero
span means "no location". Offsets are 32-bit words.
-/

namespace UnitCheck

/-- The bytes from `start` up to but not including `stop` of a file. -/
structure Span where
  file : UInt32
  start : UInt32
  stop : UInt32
deriving DecidableEq, Inhabited

namespace Span

def zero : Span := ⟨0, 0, 0⟩

def isZero (s : Span) : Bool := s == zero

def isEmpty (s : Span) : Bool := s.stop ≤ s.start

def length (s : Span) : UInt32 := if s.isEmpty then 0 else s.stop - s.start

def contains (s : Span) (off : UInt32) : Bool := s.start ≤ off && off < s.stop

/-- An empty span at the start of a file, which builders use for "not known". -/
def isUnknown (s : Span) : Bool := s.start == 0 && s.isEmpty

/-- Whether `s` lies inside `outer`. Everything lies inside an unknown span. -/
def within (s outer : Span) : Bool :=
  outer.isUnknown || (s.file == outer.file && outer.start ≤ s.start && s.stop ≤ outer.stop)

/-- The least span around both. An unknown span takes the other one over; spans of different files
have nothing around both, and the first stays. -/
def cover (s other : Span) : Span :=
  if s.file ≠ other.file then s
  else if s.isUnknown then other
  else ⟨s.file, min s.start other.start, max s.stop other.stop⟩

def toText (s : Span) : Text :=
  Text.ofNat s.file.toNat ++ ":" ++ Text.ofNat s.start.toNat ++ ".." ++ Text.ofNat s.stop.toNat

end Span

end UnitCheck
