import UnitCheck.Text.Basic

/-!
# Aborts

Faults in the checked program are collected and never stop a pass. An abort is different: the data
handed to the library breaks a promise, and there is nothing sensible to go on with. It ends the
operation; the state reached so far stays as it is.
-/

namespace UnitCheck

inductive Abort
  /-- A record that another record promises is not there. -/
  | malformed
  /-- The root scope has no parent to go back to. -/
  | popRoot
  /-- A name identifier that the name table never gave out. -/
  | unknownName
  /-- A type identifier that the type table never gave out. -/
  | unknownType
  /-- A trace event that lies outside of every scope cannot be indented. -/
  | negativeIndent
deriving DecidableEq

/-- The wording of an abort; malformed data has none. -/
def Abort.message : Abort → Option Text
  | .malformed => none
  | .popRoot => some "symbols: cannot pop root scope"
  | .unknownName => some "source: unknown string id"
  | .unknownType => some "types: invalid TypeID"
  | .negativeIndent => some "strings: negative Repeat count"

/-- A computation on a state of type `σ` that may abort and keeps the state it reached. -/
abbrev Run (σ : Type) := EStateM Abort σ

namespace Run

variable {σ α : Type}

def need (o : Option α) : Run σ α :=
  match o with
  | some a => pure a
  | none => throw .malformed

end Run

end UnitCheck
