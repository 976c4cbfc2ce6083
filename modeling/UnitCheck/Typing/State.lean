import UnitCheck.Code.Basic
import UnitCheck.Typing.Unify

/-!
# The state of inference

Inference walks the lowered code and notes a type for every value, slot and declaration. Notes are
kept newest first; the newest one counts.
-/

namespace UnitCheck.Typing

open Code

structure State where
  env : Env
  valueTypes : List (ValueId × TypeId)
  localTypes : List (LocalId × TypeId)
  declTypes : List (DeclId × TypeId)
  /-- Values that are copied where they are used. -/
  copies : List ValueId
  /-- The result type of the function being walked; zero outside. -/
  result : TypeId

abbrev Infer := Run State

def solve {α : Type} (a : Solve α) : Infer α := modifyGet fun s =>
  let (x, env) := a.run s.env
  (x, { s with env })

def noteValue (v : ValueId) (t : TypeId) : Infer Unit :=
  modify fun s => { s with valueTypes := (v, t) :: s.valueTypes }

def noteLocal (l : LocalId) (t : TypeId) : Infer Unit :=
  modify fun s => { s with localTypes := (l, t) :: s.localTypes }

def noteDecl (d : DeclId) (t : TypeId) : Infer Unit :=
  modify fun s => { s with declTypes := (d, t) :: s.declTypes }

def noteCopy (v : ValueId) : Infer Unit :=
  modify fun s => { s with copies := v :: s.copies }

/-- Reports that something has the wrong type, naming the type. -/
def wrongType (span : Span) (before : Text) (t : TypeId) (after : Text) : Solve Unit := do
  report (.error .typeMismatch span (before ++ (← label t) ++ after))

/-- Makes the type of a value fit. A value that fits only as a copy is copied, and one that does not
fit gets the error type. -/
def unifyValue (v : ValueId) (expect got : TypeId) (span : Span) : Infer Unit := do
  match ← solve (unify expect got span) with
  | .ok => pure ()
  | .needsCopy => if v.isValid then noteCopy v
  | .mismatch _ => if v.isValid then noteValue v Builtin.error

/-- Whether a type stands for something of a kind. What is not known yet passes, and so does the
error type; a literal counts as what it is. -/
def hasKind (t : TypeId) (accepts : Kind → Bool) : Solve Bool := do
  let i ← resolve t
  let e ← get
  match e.varOf? i with
  | some v =>
    match e.literal? v with
    | some k => return accepts k
    | none => return true
  | none =>
    let k := e.types.kind i
    return k = .error || accepts k

/-- The type of a slot as those who read it see it: with the modifier of the slot. -/
def localType (m : Module) (l : LocalId) : Infer TypeId := do
  match (← get).localTypes.lookup l with
  | none =>
    solve (report (.internal (m.localSpan l)
      ("local " ++ Text.ofNat l.index ++ " was never seeded")))
    return Builtin.error
  | some t =>
    match m.local? l with
    | some x => if x.modifier = .default then return t else solve (withModifier t x.modifier)
    | none => return t

/-- What a type stands for, looking through one reference. -/
def throughReference (t : TypeId) : Solve (TypeId × Ty) := do
  let i ← resolve t
  match (← describe i).shape.referent? with
  | some elem =>
    let j ← resolve elem
    return (j, ← describe j)
  | none => return (i, ← describe i)

def elemOf (base : TypeId) (span : Span) : Solve TypeId := do
  let (i, ty) ← throughReference base
  match ty.shape with
  | .array _ elem _ => return elem
  | .plain .error => return i
  | .var _ => fresh span
  | _ =>
    wrongType span "cannot index '" i "': not an array"
    return Builtin.error

def fieldOf (m : Module) (base : TypeId) (name : Text) (span : Span) : Solve TypeId := do
  let (i, ty) ← throughReference base
  match ty.shape with
  | .plain .error => return i
  | .var _ => fresh span
  | .named d _ =>
    let fields := (((m.item? d).bind Item.type).map TypeItem.fields).getD []
    match fields.find? fun f => f.name = name with
    | some f => return f.type
    | none =>
      report (.error .notFoundInScope span
        ("type '" ++ (← label i) ++ "' has no field '" ++ name ++ "'"))
      return Builtin.error
  | _ =>
    wrongType span "'" i "' has no fields"
    return Builtin.error

/-- What a reference or pointer refers to. -/
def targetOf (base : TypeId) (span : Span) : Solve TypeId := do
  let i ← resolve base
  match (← describe i).shape with
  | .reference _ elem | .pointer elem => return elem
  | .plain .error => return i
  | .var _ => fresh span
  | _ =>
    wrongType span "cannot dereference '" i "'"
    return Builtin.error

end UnitCheck.Typing
