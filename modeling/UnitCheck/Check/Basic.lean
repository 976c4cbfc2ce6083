import UnitCheck.Data.Digest
import UnitCheck.Fault.Bag
import UnitCheck.Lowering.Program
import UnitCheck.Resolution.Bind
import UnitCheck.Source.Unit
import UnitCheck.Timing
import UnitCheck.Typing.Infer

/-!
# Checking

A check runs three passes over a unit: names are resolved, the tree is lowered, and the lowered code
is typed. Faults never stop it. Its verdict holds everything that was found; a unit has failed if
one of its faults reaches a threshold, also if that fault is not shown because of a limit.
-/

namespace UnitCheck.Check

structure Passes where
  resolved : Resolution.Resolved
  lowered : Lowering.Lowered
  typed : Typing.Typed
  /-- The lowered code with the types that typing made. -/
  module : Code.Module

def passes (tree : Syntax.Tree) : Except Abort Passes := do
  let resolved ← Resolution.resolve tree
  let lowered ← Lowering.lower resolved.tree resolved.table.decls
  let (typed, module) ← Typing.infer lowered.module
  return ⟨resolved, lowered, typed, module⟩

namespace Passes

def faults (p : Passes) : List Fault := p.resolved.faults ++ p.lowered.faults ++ p.typed.faults

end Passes

structure LoweredCode where
  module : Code.Module
  faults : List Fault

structure Verdict where
  unit : Text
  digest : Digest
  /-- Missing if there was nothing to lower. -/
  code : Option LoweredCode
  typed : Option Typing.Typed
  /-- The faults that the unit came with, then those of the passes. -/
  faults : List Fault
  /-- How many faults are not shown. -/
  dropped : Int
  isFatal : Bool
  /-- Whether the verdict was found in a cache. -/
  isCached : Bool
  timings : Timings
  files : SourceFiles

namespace Verdict

def empty (unit : Text) : Verdict :=
  ⟨unit, .zero, none, none, [], 0, false, false, .empty, .empty⟩

def fails (threshold : Severity) (faults : List Fault) : Bool :=
  faults.any fun f => f.severity.isFatal threshold

def ofPasses (u : SourceUnit) (digest : Digest) (threshold : Severity) (p : Passes)
    (timings : Timings) : Verdict :=
  let faults := u.faults ++ p.faults
  ⟨u.name, digest, some ⟨p.module, p.lowered.faults⟩, some p.typed, faults, 0,
    fails threshold faults, false, timings, u.sourceFiles⟩

/-- Shows at most `limit` faults, if that is positive; the others count as dropped. -/
def cap (limit : Int) (v : Verdict) : Verdict :=
  if 0 < limit ∧ limit < v.faults.length then
    { v with
      faults := v.faults.take limit.toNat
      dropped := v.dropped + (v.faults.length - limit) }
  else v

def fromCache (v : Verdict) (u : SourceUnit) (threshold : Severity) : Verdict :=
  { v with isCached := true, files := u.sourceFiles, isFatal := fails threshold v.faults }

/-- The timings as a fault; its note holds them for other programs to read. -/
def timingFault (unit : Text) (t : Timings) : Fault :=
  let each := t.phases.map fun p => p.name ++ " " ++ Decimal.millisFixed 2 p.elapsed ++ " ms"
  let message := "timings for " ++ unit ++ ": " ++ Decimal.millisFixed 2 t.total ++ " ms" ++
    (if each.isEmpty then .empty else " (" ++ Text.join ", " each ++ ")")
  let report := Json.object (Json.field "unit" (.str unit) :: t.members)
  ⟨.note, .timings, message, .zero, [⟨.zero, report.compact⟩]⟩

def withTimings (v : Verdict) : Verdict :=
  { v with faults := v.faults ++ [timingFault v.unit v.timings] }

def bag (v : Verdict) : Bag := .ofItems v.faults v.dropped

end Verdict

end UnitCheck.Check
