import UnitCheck.Code.Basic
import UnitCheck.Fault.Basic
import UnitCheck.Scope.Decl
import UnitCheck.Syntax.Program

/-!
# The state of lowering

Lowering appends to a module. At any time one list of lines is being filled: the global lines of the
unit, or those of a block. Local slots are found by the declaration that they belong to.
-/

namespace UnitCheck.Lowering

open Code Syntax

/-- What lowering reads: the annotated tree and its declarations. -/
structure Context where
  tree : Tree
  decls : Decls

namespace Context

def name (c : Context) (i : NameId) : Text := c.tree.names.display i

end Context

structure State where
  module : Module
  /-- The block that is being filled, or none for the global lines. -/
  body : Option BlockId
  /-- Slots by name, for each region of the function being lowered, innermost first. -/
  slots : List (List (NameId × LocalId))
  /-- Slots by declaration, newest first. -/
  declSlots : List (DeclId × LocalId)
  /-- How many slots were made that no program text declares. -/
  temps : Nat
  /-- The slots and lengths of array literals, in the order in which they were finished. -/
  arrays : Array (LocalId × UInt32)
  faults : Array Fault

abbrev Lower := Run State

/-! ### Building -/

def report (f : Fault) : Lower Unit := modify fun s => { s with faults := s.faults.push f }

/-- Reports something that may not stand where it does. -/
def invalidContext (span : Span) (message : Text) : Lower Unit :=
  report (.error .invalidContext span message)

def onModule {α : Type} (f : Module → Module × α) : Lower α := modifyGet fun s =>
  let (m, a) := f s.module
  (a, { s with module := m })

def modifyModule (f : Module → Module) : Lower Unit :=
  modify fun s => { s with module := f s.module }

def onTypes {α : Type} (f : TypeTable → TypeTable × α) : Lower α := onModule fun m =>
  let (types, a) := f m.types
  ({ m with types }, a)

def newValue (v : Value) (span : Span) : Lower ValueId := onModule (·.addValue v span)

def newLocal (l : Local) (span : Span) : Lower LocalId := onModule (·.addLocal l span)

def markValue (i : ValueId) (x : Marks) : Lower Unit :=
  modifyModule fun m => { m with valueMarks := Module.mark m.valueMarks i x }

def markLine (i : LineId) (x : Marks) : Lower Unit :=
  modifyModule fun m => { m with lineMarks := Module.mark m.lineMarks i x }

def markLocal (i : LocalId) (x : Marks) : Lower Unit :=
  modifyModule fun m => { m with localMarks := Module.mark m.localMarks i x }

def emit (l : Line) (span : Span) : Lower LineId := do
  let i ← onModule (·.addLine l span)
  match (← get).body with
  | none => modifyModule fun m => { m with globals := m.globals ++ [i] }
  | some b =>
    match (← get).module.block? b with
    | some _ => modifyModule (·.modifyBlock b fun x => { x with lines := x.lines ++ [i] })
    | none =>
      report (.internal span ("current body block " ++ Text.ofNat b.index ++ " does not exist"))
  return i

/-- Appends a line that no program text stands for. -/
def emitSynthetic (l : Line) (span : Span) : Lower Unit := do
  let i ← emit l span
  markLine i .synthetic

/-! ### Slots -/

/-- Opens a region for names of slots, runs an action in it and closes it. -/
def withSlots {α : Type} (a : Lower α) : Lower α := do
  modify fun s => { s with slots := [] :: s.slots }
  let x ← a
  modify fun s => { s with slots := s.slots.drop 1 }
  return x

def bindSlot (name : NameId) (decl : DeclId) (l : LocalId) : Lower Unit := modify fun s =>
  { s with
    slots := match s.slots with
      | r :: rs => ((name, l) :: r) :: rs
      | [] => []
    declSlots := if decl.isValid then (decl, l) :: s.declSlots else s.declSlots }

/-- The slot of a declaration: the innermost slot with the name that belongs to it, or else any slot
of the declaration. Zero if there is none. -/
def State.slotOf (s : State) (name : NameId) (decl : DeclId) : LocalId :=
  let here := s.slots.findSome? fun r =>
    (r.lookup name).bind fun l =>
      if (s.module.locals[l.index]?).any fun x => x.decl = decl then some l else none
  match here with
  | some l => l
  | none => (s.declSlots.lookup decl).getD 0

/-- A slot that no program text declares. -/
def newTemp (word : Text) (type : TypeId) (span : Span) : Lower LocalId := do
  let n := (← get).temps + 1
  modify fun s => { s with temps := n }
  let l ← newLocal ⟨"__" ++ word ++ Text.ofNat n, 0, type, .mutable⟩ span
  markLocal l .synthetic
  return l

/-! ### Bodies -/

/-- Makes a block and runs an action that fills it, in a region of its own. -/
def inBlock (span : Span) (fill : BlockId → Lower Unit) : Lower BlockId := do
  let b ← onModule (·.addBlock span)
  let saved := (← get).body
  modify fun s => { s with body := some b }
  withSlots (fill b)
  modify fun s => { s with body := saved }
  return b

def setTail (b : BlockId) (v : ValueId) : Lower Unit :=
  modifyModule (·.modifyBlock b fun x => { x with tail := v })

def inGlobals {α : Type} (a : Lower α) : Lower α := do
  let saved := (← get).body
  modify fun s => { s with body := none }
  let x ← a
  modify fun s => { s with body := saved }
  return x

end UnitCheck.Lowering
