import UnitCheck.Span
import UnitCheck.Text.Blank
import UnitCheck.Text.Case
import UnitCheck.Text.Quoted

/-!
# Faults

What a pass finds wrong is a fault: a severity, a code that names its kind, a message, the place it
is about and notes with further places. Faults are collected and never stop a pass; whoever called
decides by a severity threshold whether the unit has failed.

Severities and codes come from files too and may have values without a name.
-/

namespace UnitCheck

/-- How grave a fault is; greater is graver. -/
structure Severity where
  level : UInt8
deriving DecidableEq

namespace Severity

@[match_pattern] def note : Severity := ⟨0⟩
@[match_pattern] def debug : Severity := ⟨1⟩
@[match_pattern] def warning : Severity := ⟨2⟩
@[match_pattern] def error : Severity := ⟨3⟩

def toText : Severity → Text
  | note => "NOTE"
  | debug => "DEBUG"
  | warning => "WARNING"
  | error => "ERROR"
  | _ => "UNKNOWN"

def label (s : Severity) : Text := s.toText.lower

/-- Whether a fault of severity `s` fails a unit under a threshold. -/
def isFatal (s threshold : Severity) : Bool := threshold.level ≤ s.level

/-- Reads a severity as settings and flags give it; no text at all means `error`. -/
def parse (v : Text) : Except Text Severity :=
  let word := v.trim.lower
  if word = "note" then .ok note
  else if word = "debug" then .ok debug
  else if word = "warning" ∨ word = "warn" then .ok warning
  else if word = "error" ∨ word = "" then .ok error
  else .error ("invalid severity: " ++ v.quoted ++ " (expected: note|debug|warning|error)")

/-- A severity as settings give it, `error` if it cannot be read. -/
def ofSetting (v : Text) : Severity :=
  match parse v with
  | .ok s => s
  | .error _ => error

end Severity

structure FaultCode where
  number : UInt16
deriving DecidableEq, Inhabited

namespace FaultCode

/-! ### Codes with a meaning of their own -/

def unknown : FaultCode := ⟨0⟩
def syntaxInfo : FaultCode := ⟨2000⟩
def unexpectedToken : FaultCode := ⟨2001⟩
def unclosedBlock : FaultCode := ⟨2002⟩
def semanticInfo : FaultCode := ⟨3000⟩
def scopeOverride : FaultCode := ⟨3001⟩
def notFoundInScope : FaultCode := ⟨3002⟩
def invalidTypeKind : FaultCode := ⟨3003⟩
def invalidContext : FaultCode := ⟨3004⟩
def typeMismatch : FaultCode := ⟨3005⟩
def unresolvedType : FaultCode := ⟨3006⟩
def unstableFeature : FaultCode := ⟨3007⟩
def loadError : FaultCode := ⟨4001⟩
def decodeError : FaultCode := ⟨4002⟩
def observation : FaultCode := ⟨6000⟩
def timings : FaultCode := ⟨6001⟩
def internalError : FaultCode := ⟨9000⟩

def titles : List (FaultCode × String) :=
  [(unknown, "Unknown error"),
   (syntaxInfo, "Syntax information"),
   (unexpectedToken, "Unexpected token"),
   (unclosedBlock, "Unclosed block"),
   (semanticInfo, "Semantic information"),
   (scopeOverride, "Declaration overrides an existing one in the same scope"),
   (notFoundInScope, "Name not found in scope"),
   (invalidTypeKind, "Invalid kind of type"),
   (invalidContext, "Construct not valid in this context"),
   (typeMismatch, "Type mismatch"),
   (unresolvedType, "Type was not resolved"),
   (unstableFeature, "Unstable feature"),
   (loadError, "I/O load file error"),
   (decodeError, "Unit decode error"),
   (observation, "Observability information"),
   (timings, "Pipeline timings"),
   (internalError, "Internal compiler error")]

/-- The title of a code; codes without one share that of the unknown code. -/
def title (c : FaultCode) : Text := (titles.lookup c).getD "Unknown error"

/-- The family of a code, by its thousands. -/
def family? (c : FaultCode) : Option String :=
  match c.number.toNat / 1000 with
  | 2 => some "SYN"
  | 3 => some "SEM"
  | 4 => some "IO"
  | 6 => some "OBS"
  | 9 => some "ICE"
  | _ => none

/-- The code as reports write it; codes outside every family look alike. -/
def id (c : FaultCode) : Text :=
  match c.family? with
  | some f => f ++ Text.ofNat c.number.toNat
  | none => "E0000"

def toText (c : FaultCode) : Text := "[" ++ c.id ++ "]: " ++ c.title

end FaultCode

structure Note where
  span : Span
  message : Text
deriving DecidableEq

structure Fault where
  severity : Severity
  code : FaultCode
  message : Text
  span : Span
  notes : List Note
deriving DecidableEq

namespace Fault

def error (code : FaultCode) (span : Span) (message : Text) : Fault :=
  ⟨.error, code, message, span, []⟩

def warning (code : FaultCode) (span : Span) (message : Text) : Fault :=
  ⟨.warning, code, message, span, []⟩

def withNote (f : Fault) (span : Span) (message : Text) : Fault :=
  { f with notes := f.notes ++ [⟨span, message⟩] }

/-- A fault of the checker itself, not of the checked program. -/
def internal (span : Span) (message : Text) : Fault :=
  error .internalError span ("internal error at SITE: " ++ message)

end Fault

end UnitCheck
