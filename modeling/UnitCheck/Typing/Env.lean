import UnitCheck.Fault.Basic
import UnitCheck.Ty.Label
import UnitCheck.Ty.Numeric

/-!
# Inference variables

While a unit is being typed, types that are not known yet are variables. An `Env` hands variables
out and remembers what they stand for. A variable that stands for a number literal has a *literal
kind*, which bounds the number types that it may become; the kind narrows as literals meet.

`Env.resolve` follows a variable to what it stands for. `Env.expand` does so everywhere inside a
type and lets its caller decide what becomes of variables that stand for nothing yet. Both make new
types, and so does almost everything built on them: they run in the state monad `Solve`.
-/

namespace UnitCheck

/-- The type with an identifier, invalid if there is none. -/
def TypeTable.describe (t : TypeTable) (i : TypeId) : Ty :=
  (t.lookup? i).getD (.ofShape (.plain .invalid))

namespace Typing

structure Env where
  types : TypeTable
  /-- How many variables were handed out. -/
  count : Nat
  /-- What variables stand for, newest first. -/
  bindings : List (VarId × TypeId)
  /-- Where variables come from, newest first. -/
  origins : List (VarId × Span)
  /-- The literal kinds of variables, newest first. -/
  literals : List (VarId × Kind)
  /-- Variables that were reported as standing for nothing in the end. -/
  unsettled : List VarId
  faults : Array Fault

abbrev Solve := StateM Env

namespace Env

def initial (types : TypeTable) : Env := ⟨types, 0, [], [], [], [], #[]⟩

/-- The variable that a type is; variable zero is none. -/
def varOf? (e : Env) (i : TypeId) : Option VarId :=
  match (e.types.describe i).shape with
  | .var v => if v.isValid then some v else none
  | _ => none

def binding? (e : Env) (v : VarId) : Option TypeId := e.bindings.lookup v

def literal? (e : Env) (v : VarId) : Option Kind := e.literals.lookup v

def origin (e : Env) (v : VarId) : Span := (e.origins.lookup v).getD .zero

end Env

/-! ### Access -/

def report (f : Fault) : Solve Unit := modify fun e => { e with faults := e.faults.push f }

def onTypes {α : Type} (f : TypeTable → TypeTable × α) : Solve α := modifyGet fun e =>
  let (types, a) := f e.types
  (a, { e with types })

def intern (t : Ty) : Solve TypeId := onTypes (·.intern t)

def withModifier (i : TypeId) (m : Modifier) : Solve TypeId := onTypes (·.withModifier i m)

def unqualified (i : TypeId) : Solve TypeId := onTypes (·.unqualified i)

def varType (v : VarId) : Solve TypeId := onTypes (·.var v)

def fnType (params : List TypeId) (result : TypeId) : Solve TypeId := onTypes (·.fn params result)

def describe (i : TypeId) : Solve Ty := do return (← get).types.describe i

def kindOf (i : TypeId) : Solve Kind := do return (← get).types.kind i

def isCopy (i : TypeId) : Solve Bool := do return (← get).types.isCopy i

/-! ### Variables -/

/-- Hands out a variable that may become anything. -/
def freshVar (span : Span) : Solve VarId := do
  let e ← get
  let v : VarId := ⟨e.count + 1⟩
  set { e with count := e.count + 1, origins := (v, span) :: e.origins }
  return v

def fresh (span : Span) : Solve TypeId := do varType (← freshVar span)

def setLiteral (v : VarId) (k : Kind) : Solve Unit :=
  modify fun e => { e with literals := (v, k) :: e.literals }

def freshLiteral (k : Kind) (span : Span) : Solve TypeId := do
  let v ← freshVar span
  let i ← varType v
  setLiteral v k
  return i

def assign (v : VarId) (i : TypeId) : Solve Unit :=
  modify fun e => { e with bindings := (v, i) :: e.bindings }

/-! ### Following variables -/

/-- What a type stands for after at most `n` bindings, or the variable at which they turn in a
circle. -/
def Env.follow (e : Env) : Nat → List VarId → TypeId → Except VarId TypeId
  | 0, _, i => .ok i
  | n + 1, seen, i =>
    match e.varOf? i with
    | none => .ok i
    | some v =>
      match e.binding? v with
      | none => .ok i
      | some next => if seen.contains v then .error v else e.follow n (v :: seen) next

/-- What a type stands for: a type that is no variable, or a variable that stands for nothing. A
modifier around a variable stays. No way visits a variable twice, so the number of bindings bounds
its length. -/
def resolve (i : TypeId) : Solve TypeId := do
  let e ← get
  match e.types.lookup? i with
  | none => return i
  | some outer =>
    match e.follow (e.bindings.length + 1) [] i with
    | .error v =>
      report (.internal (e.origin v)
        ("substitution cycle through variable " ++ Text.ofNat v.index))
      return Builtin.error
    | .ok j => if outer.modifier = .default then return j else withModifier j outer.modifier

def isLiteral (i : TypeId) : Solve Bool := do
  let i ← resolve i
  let e ← get
  return ((e.varOf? i).bind e.literal?).isSome

/-! ### Expanding types -/

def depthLimit : Nat := 65

def mapTypes (f : TypeId → Solve TypeId) : List TypeId → Solve (List TypeId)
  | [] => return []
  | i :: is => do
    let j ← f i
    return j :: (← mapTypes f is)

/-- Replaces every variable in a type by what it stands for, with `depth` levels left; `leaf` says
what becomes of a variable that stands for nothing. -/
def expandAt (leaf : VarId → TypeId → Solve TypeId) : Nat → TypeId → Solve TypeId
  | 0, i => do
    report (.internal .zero ("type " ++ Text.ofNat i.index ++ " is nested too deeply"))
    return Builtin.error
  | depth + 1, i => do
    let i ← resolve i
    let part := fun (elem : TypeId) (build : TypeId → Shape) (m : Modifier) => do
      let elem' ← expandAt leaf depth elem
      if elem' = elem then return i else intern ⟨build elem', m⟩
    match (← get).types.lookup? i with
    | none => return i
    | some ⟨.var v, m⟩ => do
      let j ← leaf v i
      if m = .default then return j else withModifier j m
    | some ⟨.array s elem n, m⟩ => part elem (.array s · n) m
    | some ⟨.reference isMut elem, m⟩ => part elem (.reference isMut ·) m
    | some ⟨.pointer elem, m⟩ => part elem .pointer m
    | some ⟨.optional elem, m⟩ => part elem .optional m
    | some ⟨.fn _, m⟩ => do
      match (← get).types.signature? i with
      | none => return i
      | some s =>
        let params ← mapTypes (expandAt leaf depth) s.params
        let result ← expandAt leaf depth s.result
        if params = s.params ∧ result = s.result then return i
        else withModifier (← fnType params result) m
    | some _ => return i

def expand (leaf : VarId → TypeId → Solve TypeId) (i : TypeId) : Solve TypeId :=
  expandAt leaf depthLimit i

def keep (_ : VarId) (i : TypeId) : Solve TypeId := return i

def showLiteral (v : VarId) (i : TypeId) : Solve TypeId := do
  match (← get).literal? v with
  | some .untypedInt => return Builtin.untypedInt
  | some .untypedUint => return Builtin.untypedUint
  | some .untypedFloat => return Builtin.untypedFloat
  | _ => return i

def label (i : TypeId) : Solve Text := do
  let shown ← expand showLiteral i
  return (← get).types.label shown

/-! ### Defaults -/

/-- The variables with a literal kind, each once, in the order of their numbers. -/
def Env.literalVars (e : Env) : List VarId :=
  (e.literals.map Prod.fst).eraseDups.mergeSort fun a b => a.index ≤ b.index

/-- Settles a literal that nothing has settled. -/
def applyDefault (v : VarId) : Solve Unit := do
  let e ← get
  if (e.binding? v).isNone then
    assign v (if e.literal? v = some .untypedFloat then Builtin.f32 else Builtin.int)

/-- Settles every literal that nothing has settled: floats on `f32`, the others on `int`. -/
def applyDefaults : Solve Unit := do
  for v in (← get).literalVars do
    applyDefault v

/-! ### Types under inference -/

/-- A type as inference sees it: a variable, or a known type. -/
structure Inferred where
  /-- Zero if the type is known. -/
  var : VarId
  known : TypeId
  span : Span
deriving DecidableEq

namespace Inferred

def ofKnown (i : TypeId) : Inferred := ⟨0, i, .zero⟩

def toType (t : Inferred) : Solve TypeId :=
  if t.var.isValid then varType t.var else return t.known

end Inferred

def Env.infer (e : Env) (i : TypeId) : Inferred :=
  match e.varOf? i with
  | some v => ⟨v, i, e.origin v⟩
  | none => .ofKnown i

/-- Follows an inferred type. The place stays if what it stands for has none. -/
def Inferred.resolve (t : Inferred) : Solve Inferred := do
  let i ← Typing.resolve (← t.toType)
  let out := (← get).infer i
  return if out.span.isEmpty then { out with span := t.span } else out

end Typing

end UnitCheck
