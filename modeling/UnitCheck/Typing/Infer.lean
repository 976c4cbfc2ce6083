import UnitCheck.Typing.State

/-!
# Type inference

Types every value, slot and declaration of a module. Slots start with their declared type or a new
variable; walking the code then makes types fit each other, and at the end literals that nothing has
settled get their default type. What still stands for nothing is a fault and gets the error type.

The walk over values is the only recursion; everything else is given how to type a value.
-/

namespace UnitCheck.Typing

open Code
open Syntax (LiteralKind BinaryOp UnaryOp)

/-! ### Places, lines and blocks -/

def inferPlace (m : Module) (value : ValueId → Infer TypeId) (span : Span) : Place → Infer TypeId
  | .missing | .unknown _ => return Builtin.error
  | .slot l => localType m l
  | .index b i => do
    let base ← inferPlace m value span b
    let t ← value i
    if !(← solve (hasKind t Kind.isInteger)) then
      solve (wrongType (m.valueSpan i) "index must be an integer, found '" t "'")
    solve (elemOf base span)
  | .deref b => do
    let base ← inferPlace m value span b
    solve (targetOf base span)
  | .field b name => do
    let base ← inferPlace m value span b
    solve (fieldOf m base name span)

def inferLine (m : Module) (value : ValueId → Infer TypeId) (i : LineId) : Infer Unit := do
  match m.line? i with
  | none => pure ()
  | some l =>
    let span := m.lineSpan i
    match l with
    | .bind slot v =>
      if v.isValid then
        let got ← value v
        unifyValue v (← localType m slot) got (m.valueSpan v)
    | .assign p v =>
      let expect ← inferPlace m value span p
      let got ← value v
      unifyValue v expect got (m.valueSpan v)
    | .eval v => discard (value v)
    | .return_ v =>
      let got ← if v.isValid then value v else pure Builtin.unit
      let result := (← get).result
      if result.isValid then unifyValue v result got span
    | .break_ v => if v.isValid then discard (value v)
    | .continue_ | .unknown _ => pure ()

/-- Types lines in order; true if one of them ends control flow. -/
def inferLines (m : Module) (value : ValueId → Infer TypeId) : List LineId → Infer Bool
  | [] => return false
  | i :: is => do
    inferLine m value i
    let l ← Run.need (m.line? i)
    let rest ← inferLines m value is
    return l.isJump || rest

/-- The type of a block, and whether control flow ends inside. -/
def inferBlock (m : Module) (value : ValueId → Infer TypeId) (i : BlockId) :
    Infer (TypeId × Bool) := do
  match m.block? i with
  | none => return (Builtin.error, false)
  | some b =>
    let diverges ← inferLines m value b.lines
    if b.tail.isValid then return (← value b.tail, diverges) else return (Builtin.unit, diverges)

/-! ### Values -/

def inferLiteral (kind : LiteralKind) (span : Span) : Solve TypeId :=
  match kind with
  | .int => freshLiteral .untypedInt span
  | .uint => freshLiteral .untypedUint span
  | .float => freshLiteral .untypedFloat span
  | .true_ | .false_ => return Builtin.bool
  | .string => return Builtin.str
  | .char => return Builtin.char
  | _ => return Builtin.error

def funcType (m : Module) (d : DeclId) : TypeId :=
  (((m.item? d).bind Item.func).map Func.type).getD Builtin.error

def expectBool (m : Module) (value : ValueId → Infer TypeId) (cond : ValueId) : Infer Unit := do
  let got ← value cond
  unifyValue cond Builtin.bool got (m.valueSpan cond)

/-- Whether an operator takes an operand; if not, that is a fault. -/
def requireOperand (m : Module) (v : ValueId) (t : TypeId) (op : Text) (accepts : Kind → Bool)
    (what : Text) : Solve Bool := do
  if ← hasKind t accepts then return true
  wrongType (m.valueSpan v) ("operator '" ++ op ++ "' needs " ++ what ++ ", found '") t "'"
  return false

def inferNumbers (m : Module) (op : BinaryOp) (l : ValueId) (left right : TypeId) (span : Span)
    (accepts : Kind → Bool) (what : Text) : Solve TypeId := do
  if (← unify (← unqualified left) (← unqualified right) span).isMismatch then return Builtin.error
  if !(← requireOperand m l left op.toText accepts what) then return Builtin.error
  let a ← resolve left
  let b ← resolve right
  if (← kindOf a) = .error ∨ (← kindOf b) = .error then return Builtin.error
  unqualified ((← get).types.wider a b)

def inferBinary (m : Module) (value : ValueId → Infer TypeId) (op : BinaryOp) (l r : ValueId)
    (span : Span) : Infer TypeId := do
  let left ← value l
  let right ← value r
  match op.opClass with
  | .logical =>
    unifyValue l Builtin.bool left (m.valueSpan l)
    unifyValue r Builtin.bool right (m.valueSpan r)
    return Builtin.bool
  | .equality =>
    let a ← solve (unqualified left)
    let b ← solve (unqualified right)
    unifyValue r a b span
    return Builtin.bool
  | .ordering => solve do
    if !(← unify (← unqualified left) (← unqualified right) span).isMismatch then
      discard (requireOperand m l left op.toText Kind.isNumeric "numbers")
    return Builtin.bool
  | .arithmetic => solve (inferNumbers m op l left right span Kind.isNumeric "numbers")
  | .bitwise => solve (inferNumbers m op l left right span Kind.isInteger "integers")

/-- The type of a negated number. Negation makes an unsigned literal a signed one. -/
def inferNeg (m : Module) (v : ValueId) (operand : TypeId) (span : Span) : Solve TypeId := do
  if !(← requireOperand m v operand UnaryOp.neg.toText Kind.isNumeric "numbers") then
    return Builtin.error
  if ← isLiteral operand then
    let signed ← freshLiteral .untypedInt span
    discard (unify signed operand span)
    return signed
  unqualified operand

def inferUnary (m : Module) (value : ValueId → Infer TypeId) (op : UnaryOp) (v : ValueId)
    (span : Span) : Infer TypeId := do
  let operand ← value v
  match op with
  | .not =>
    unifyValue v Builtin.bool operand span
    return Builtin.bool
  | .neg => solve (inferNeg m v operand span)
  | _ => return Builtin.error

def inferArgs (value : ValueId → Infer TypeId) : List ValueId → Infer (List TypeId)
  | [] => return []
  | v :: vs => do
    let t ← value v
    return t :: (← inferArgs value vs)

def unifyArgs (m : Module) : List ValueId → List TypeId → List TypeId → Infer Unit
  | v :: vs, p :: ps, t :: ts => do
    unifyValue v p t (m.valueSpan v)
    unifyArgs m vs ps ts
  | _, _, _ => pure ()

def inferCall (m : Module) (value : ValueId → Infer TypeId) (f : ValueId) (args : List ValueId)
    (span : Span) : Infer TypeId := do
  let callee ← solve (resolve (← value f))
  let types ← inferArgs value args
  match (← solve (describe callee)).shape with
  | .plain .error => return Builtin.error
  | .var _ => solve do
    let ret ← fresh span
    discard (unify callee (← fnType types ret) span)
    return ret
  | .fn _ =>
    let s ← Run.need ((← get).env.types.signature? callee)
    if s.params.length ≠ args.length then
      solve (report (.error .invalidContext span
        ("call has " ++ Text.ofNat args.length ++ " arguments but the function expects " ++
          Text.ofNat s.params.length)))
    else unifyArgs m args s.params types
    return s.result
  | _ =>
    solve (wrongType (m.valueSpan f) "cannot call a value of type '" callee "'")
    return Builtin.error

/-- Makes sure that a type may be cast. Numbers may become any number, and every type may be cast to
itself. -/
def checkCast (source target : TypeId) (span : Span) : Solve Unit := do
  let from_ ← kindOf source
  let into ← kindOf target
  if from_ = .error ∨ into = .error then return
  let isNumber ← hasKind source Kind.isNumeric
  if isNumber && into.isNumeric then return
  if from_ = .var then
    discard (unify target source span)
  else
    let a ← unqualified source
    let b ← unqualified target
    if a ≠ b then
      let s ← label source
      let t ← label target
      report (.error .typeMismatch span ("cannot cast '" ++ s ++ "' to '" ++ t ++ "'"))

def inferCast (value : ValueId → Infer TypeId) (v : ValueId) (target : TypeId) (span : Span) :
    Infer TypeId := do
  let source ← solve (resolve (← value v))
  if target.isValid then
    solve (checkCast source target span)
    return target
  else return Builtin.error

/-! ### Branches and loops -/

def hasTail (m : Module) (b : BlockId) : Bool := (m.block? b).any fun b => b.tail.isValid

/-- The type on which the branches of an `if` agree so far, and whether one of them needs no
condition. A branch that ends control flow has no say. -/
def inferBranches (m : Module) (value : ValueId → Infer TypeId) :
    TypeId → Bool → List (ValueId × BlockId) → Infer (TypeId × Bool)
  | first, hasElse, [] => return (first, hasElse)
  | first, hasElse, (cond, body) :: rest => do
    if cond.isValid then expectBool m value cond
    let hasElse := hasElse || !cond.isValid
    let (t, diverges) ← inferBlock m value body
    if diverges && !hasTail m body then inferBranches m value first hasElse rest
    else if !first.isValid then inferBranches m value t hasElse rest
    else
      let b ← Run.need (m.block? body)
      if b.tail.isValid then unifyValue b.tail first t (m.valueSpan b.tail)
      else
        let span ← Run.need m.blockSpans[body.index]?
        discard (solve (unify first t span))
      inferBranches m value first hasElse rest

/-- Makes every branch of an `if` without `else` give no value. -/
def dropBranchValues (m : Module) : List (ValueId × BlockId) → Infer Unit
  | [] => pure ()
  | (_, body) :: rest => do
    let b ← Run.need (m.block? body)
    if b.tail.isValid then
      let t := ((← get).valueTypes.lookup b.tail).getD 0
      unifyValue b.tail Builtin.unit t (m.valueSpan b.tail)
    dropBranchValues m rest

def inferIf (m : Module) (value : ValueId → Infer TypeId) (chain : Option Chain) :
    Infer TypeId := do
  match chain with
  | none => return Builtin.error
  | some c =>
    let (first, hasElse) ← inferBranches m value 0 false c.branches
    if !hasElse then
      dropBranchValues m c.branches
      return Builtin.unit
    else return if first.isValid then first else Builtin.unit

/-- Types a loop over the elements of something. Only arrays have elements. -/
def inferFor (m : Module) (value : ValueId → Infer TypeId) (binding : LocalId) (iter : ValueId)
    (body : BlockId) (span : Span) : Infer Unit := do
  let t ← value iter
  let (_, ty) ← solve (throughReference t)
  let elem := match ty.shape with
    | .array _ e _ => e
    | _ => Builtin.error
  let slot := ((← get).localTypes.lookup binding).getD 0
  discard (solve (unify slot elem span))
  discard (inferBlock m value body)

/-! ### The walk -/

def inferForm (m : Module) (value : ValueId → Infer TypeId) (v : Value) (span : Span) :
    Infer TypeId := do
  match v with
  | .poison => return Builtin.error
  | .literal kind _ => solve (inferLiteral kind span)
  | .load p => inferPlace m value span p
  | .funcRef d => return funcType m d
  | .binary op l r => inferBinary m value op l r span
  | .unary op e => inferUnary m value op e span
  | .ref p isMut =>
    let t ← inferPlace m value span p
    solve do
      let inner ← unqualified (← resolve t)
      intern (.ofShape (.reference isMut inner))
  | .call f args _ => inferCall m value f args span
  | .cast e t => inferCast value e t span
  | .block b => return (← inferBlock m value b).1
  | .ifElse c => inferIf m value c
  | .whileLoop cond body =>
    if cond.isValid then expectBool m value cond
    discard (inferBlock m value body)
    return Builtin.unit
  | .forLoop binding iter body =>
    inferFor m value binding iter body span
    return Builtin.unit
  | .stackArray elem n => solve do
    let e ← if elem.isValid then pure elem else fresh span
    intern (.ofShape (.array .stack e n))
  | .broken code => if code.1 = 1 then return Builtin.error else throw .malformed
  | .unknown _ =>
    solve (report (.internal span ("unexpected expression kind " ++ v.kindText)))
    return Builtin.error

/-- Types a value and what it is made of; values are nested at most `fuel` deep. -/
def inferValue (m : Module) : Nat → ValueId → Infer TypeId
  | 0, _ => throw .malformed
  | fuel + 1, i => do
    match m.value? i with
    | none => return Builtin.error
    | some v =>
      let t ← inferForm m (fun j => inferValue m fuel j) v (m.valueSpan i)
      noteValue i t
      return t

/-- Types a value. Values are nested no deeper than there are values. -/
def value (m : Module) (i : ValueId) : Infer TypeId := inferValue m (m.values.size + 1) i

/-! ### Modules -/

def seedLocals (m : Module) : List (Local × Nat) → Infer Unit
  | [] => pure ()
  | (l, i) :: rest => do
    let t ← if l.type.isValid then pure l.type else solve (fresh (m.localSpan ⟨i⟩))
    noteLocal ⟨i⟩ t
    seedLocals m rest

/-- Types a global line. Variables at the top of a unit may not be mutable. -/
def inferGlobal (m : Module) (i : LineId) : Infer Unit := do
  match m.line? i with
  | some (.bind slot _) =>
    if let some l := m.local? slot then
      if l.modifier = .mutable ∧ ¬ (Module.marksOf m.localMarks slot).has .synthetic then
        solve (report (.error .invalidContext (m.lineSpan i)
          ("global '" ++ l.name ++ "' cannot be 'mut'")))
  | _ => pure ()
  inferLine m (value m) i

def inferGlobals (m : Module) : List LineId → Infer Unit
  | [] => pure ()
  | i :: is => do
    inferGlobal m i
    inferGlobals m is

def seedParams : List Code.Param → Infer Unit
  | [] => pure ()
  | p :: ps => do
    noteLocal p.slot p.type
    seedParams ps

/-- Types the body of a function and makes its value fit the result. -/
def inferFunc (m : Module) (f : Func) : Infer Unit := do
  if f.body.isValid then
    let saved := (← get).result
    modify fun s => { s with result := f.result }
    seedParams f.params
    let (t, diverges) ← inferBlock m (value m) f.body
    let b ← Run.need (m.block? f.body)
    if b.tail.isValid then unifyValue b.tail f.result t (m.valueSpan b.tail)
    else if !diverges then
      let span ← Run.need m.blockSpans[f.body.index]?
      discard (solve (unify f.result t span))
    modify fun s => { s with result := saved }

def noteMembers (keepsMissing : Bool) : List Code.Member → Infer Unit
  | [] => pure ()
  | x :: xs => do
    if keepsMissing || x.type.isValid then noteDecl x.decl x.type
    noteMembers keepsMissing xs

def inferItem (m : Module) (i : Item) : Infer Unit := do
  match i.kind with
  | .func =>
    let f ← Run.need i.func
    inferFunc m f
    noteDecl i.decl f.type
  | .type =>
    let t ← Run.need i.type
    noteDecl i.decl t.type
    noteMembers true t.fields
    noteMembers false t.variants
  | _ => pure ()

def inferItems (m : Module) : List (Option Item) → Infer Unit
  | [] => pure ()
  | i :: is => do
    inferItem m (← Run.need i)
    inferItems m is

/-! ### The end -/

/-- A variable that stands for nothing in the end is a fault, once. -/
def unsettled (v : VarId) (_ : TypeId) : Solve TypeId := do
  let e ← get
  if !e.unsettled.contains v then
    set { e with unsettled := v :: e.unsettled }
    let span := e.origin v
    report ((Fault.error .unresolvedType span "type was not resolved").withNote span
      "add a type annotation")
  return Builtin.error

structure Typed where
  declTypes : List (DeclId × TypeId)
  valueTypes : List (ValueId × TypeId)
  localTypes : List (LocalId × TypeId)
  /-- Values that are copied where they are used, in the order of identifiers. -/
  copies : List ValueId
  faults : List Fault
  /-- How many variables it took. -/
  varCount : Nat

def settleLocals : List (Local × Nat) → Infer (List (LocalId × TypeId))
  | [] => return []
  | (l, i) :: rest => do
    let noted := ((← get).localTypes.lookup ⟨i⟩).getD 0
    let t ← solve (expand unsettled noted)
    let t ← if l.modifier = .default then pure t else solve (withModifier t l.modifier)
    if l.decl.isValid then noteDecl l.decl t
    return (⟨i⟩, t) :: (← settleLocals rest)

def settleValues : List Nat → Infer (List (ValueId × TypeId))
  | [] => return []
  | i :: rest => do
    match (← get).valueTypes.lookup ⟨i⟩ with
    | none => settleValues rest
    | some noted =>
      let t ← solve (expand unsettled noted)
      return (⟨i⟩, t) :: (← settleValues rest)

/-- Types a module; gives the final types of slots and values. -/
def inferModule (m : Module) : Infer (List (LocalId × TypeId) × List (ValueId × TypeId)) := do
  let locals := m.locals.toList.zipIdx.drop 1
  seedLocals m locals
  inferGlobals m m.globals
  inferItems m m.sortedItems
  solve applyDefaults
  let localTypes ← settleLocals locals
  let valueTypes ← settleValues ((List.range m.values.size).drop 1)
  return (localTypes, valueTypes)

/-- Types a module; gives the module with the types that were made on the way. -/
def infer (m : Module) : Except Abort (Typed × Module) :=
  match inferModule m ⟨.initial m.types, [], [], [], [], 0⟩ with
  | .ok (localTypes, valueTypes) s =>
    let copies := s.copies.eraseDups.mergeSort fun a b => a.index ≤ b.index
    .ok (⟨Id.latest s.declTypes, valueTypes, localTypes, copies, s.env.faults.toList, s.env.count⟩,
      { m with types := s.env.types })
  | .error e _ => .error e

end UnitCheck.Typing
