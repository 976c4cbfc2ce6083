import UnitCheck.Typing.Env

/-!
# Unification

`unify expect got` makes a value of type `got` fit where `expect` is expected, by letting variables
stand for types. Types of the same shape fit if their parts do. A reference fits where its referent
is expected if the referent may be copied, and so does a value that is bound more strictly than its
new binding; both then *need a copy*.

The error type and a missing type fit everywhere, so that one fault does not cause others.
-/

namespace UnitCheck.Typing

inductive Fit
  | ok
  /-- It fits if it is copied. -/
  | needsCopy
  /-- It does not fit; the reason may be empty. -/
  | mismatch (reason : Text)
deriving DecidableEq

namespace Fit

def toText : Fit → Text
  | ok => "ok"
  | needsCopy => "needs-auto-copy"
  | mismatch _ => "mismatch"

@[match_pattern] def no : Fit := .mismatch ⟨[]⟩

def isMismatch : Fit → Bool
  | mismatch _ => true
  | _ => false

/-- The fit of a whole, given that of its outside and that of its parts. -/
def join : Fit → Fit → Fit
  | _, mismatch r => mismatch r
  | mismatch r, _ => mismatch r
  | ok, ok => ok
  | _, _ => needsCopy

end Fit

/-- Whether a value bound with `got` may go into a binding declared with `expect` without a copy:
not if it was promised to change less. -/
def modifiersAgree (expect got : Modifier) : Bool :=
  !((expect = .mutable && (got = .const || got = .literal)) || (expect = .const && got = .literal))

def anyType (f : TypeId → Solve Bool) : List TypeId → Solve Bool
  | [] => return false
  | i :: is => do
    if ← f i then return true else anyType f is

/-- Whether a variable occurs in a type, with `depth` levels left to look into. -/
def occursAt (v : VarId) : Nat → TypeId → Solve Bool
  | 0, _ => return true
  | depth + 1, i => do
    let i ← resolve i
    match (← describe i).shape with
    | .var w => return w = v
    | .array _ elem _ | .reference _ elem | .pointer elem | .optional elem => occursAt v depth elem
    | .fn _ => do
      match (← get).types.signature? i with
      | none => return false
      | some s =>
        if ← anyType (occursAt v depth) s.params then return true else occursAt v depth s.result
    | _ => return false

/-- Lets two different variables stand for the same. A literal keeps its kind, and two literals take
the narrower one. -/
def bindVars (v w : VarId) (target : TypeId) : Solve Unit := do
  let e ← get
  match e.literal? v, e.literal? w with
  | some lit, some other =>
    if lit.precedence < other.precedence then setLiteral w lit
    assign v target
  | some _, none => assign w (← varType v)
  | none, _ => assign v target

/-- Lets a variable stand for a type that is no variable, unless the type would contain itself. -/
def bindType (v : VarId) (target : TypeId) : Solve Fit := do
  if ← occursAt v depthLimit target then return .mismatch "type would contain itself"
  assign v target
  return .ok

/-- Lets a variable stand for a type. A literal takes only the numbers that it fits. -/
def bind (v : VarId) (target : TypeId) : Solve Fit := do
  let target ← unqualified target
  let w := ((← get).varOf? target).getD 0
  if w = v then return .ok
  if w.isValid then
    bindVars v w target
    return .ok
  match (← get).literal? v with
  | none => bindType v target
  | some lit =>
    let kind ← kindOf target
    if kind = .error then bindType v target
    else if kind.isUntyped then
      if kind.precedence < lit.precedence then setLiteral v kind
      return .ok
    else if lit.fits kind then bindType v target
    else return .no

/-- Unifies parameters pairwise. A copy inside of a parameter does not count. -/
def unifyParams (unify : TypeId → TypeId → Solve Fit) : List TypeId → List TypeId → Solve Fit
  | p :: ps, q :: qs => do
    match ← unify p q with
    | .mismatch r => return .mismatch r
    | _ => unifyParams unify ps qs
  | _, _ => return .ok

def unifyFn (unify : TypeId → TypeId → Solve Fit) (a b : TypeId) : Solve Fit := do
  let types := (← get).types
  match types.signature? a, types.signature? b with
  | some sa, some sb =>
    if sa.params.length ≠ sb.params.length then
      return .mismatch (Text.ofNat sb.params.length ++ " parameters differ from " ++
        Text.ofNat sa.params.length)
    else
      match ← unifyParams unify sa.params sb.params with
      | .mismatch r => return .mismatch r
      | _ => unify sa.result sb.result
  | _, _ => return .no

def unifyParts (unify : TypeId → TypeId → Solve Fit) (a b : TypeId) (ta tb : Shape) : Solve Fit :=
  match ta, tb with
  | .array sa ea na, .array sb eb nb =>
    if sa ≠ sb then
      return .mismatch (sb.toText ++ " array is not compatible with " ++ sa.toText ++ " array")
    else if sa = .stack ∧ na ≠ nb then
      return .mismatch ("length " ++ Text.ofNat nb.toNat ++ " differs from " ++ Text.ofNat na.toNat)
    else unify ea eb
  | .reference ma ea, .reference mb eb => if ma ≠ mb then return .no else unify ea eb
  | .pointer ea, .pointer eb => unify ea eb
  | .optional ea, .optional eb => unify ea eb
  | .fn _, .fn _ => unifyFn unify a b
  | .named da _, .named db _ => return if da = db then .ok else .no
  | .int wa, .int wb | .uint wa, .uint wb | .float wa, .float wb =>
    return if wa = wb then .ok else .no
  | _, _ => return .ok

/-- The fit of a value that is bound with `tb` in a binding declared with `ta`, by the modifiers
alone. -/
def fitModifiers (ta tb : Modifier) (b : TypeId) : Solve Fit := do
  if ta = .default ∨ tb = .default ∨ modifiersAgree ta tb then return .ok
  else if ← isCopy b then return .needsCopy
  else return .mismatch ("a '" ++ tb.toText ++ "' value cannot be copied into a '" ++ ta.toText ++
    "' binding")

/-- Unifies a type with what a reference refers to; the referent has to be copied. -/
def unifyReferent (unify : TypeId → TypeId → Solve Fit) (a elem : TypeId) : Solve Fit := do
  match ← unify a elem with
  | .mismatch r => return .mismatch r
  | _ =>
    if ← isCopy (← resolve elem) then return .needsCopy
    else return .mismatch "the referenced value cannot be copied implicitly"

/-- Unifies two types neither of which is a variable, whose modifiers fit as `outer`. -/
def unifyShapes (unify : TypeId → TypeId → Solve Fit) (a b : TypeId) (ta tb : Ty) (outer : Fit) :
    Solve Fit := do
  match if ta.kind = .reference then none else tb.shape.referent? with
  | some elem => unifyReferent unify a elem
  | none =>
    if ta.kind.fits tb.kind ∨ tb.kind.fits ta.kind then return outer
    else if ta.kind ≠ tb.kind then return .no
    else return outer.join (← unifyParts unify a b ta.shape tb.shape)

/-- Unifies two types neither of which is a variable. -/
def unifyKnown (unify : TypeId → TypeId → Solve Fit) (a b : TypeId) (ta tb : Ty) : Solve Fit := do
  if ta.kind = .error ∨ tb.kind = .error then return .ok
  match ← fitModifiers ta.modifier tb.modifier b with
  | .mismatch r => return .mismatch r
  | outer => unifyShapes unify a b ta tb outer

/-- Unifies two types, with `depth` levels left to look into. -/
def unifyAt : Nat → TypeId → TypeId → Solve Fit
  | 0, _, _ => return .mismatch "type is too deeply nested"
  | depth + 1, expect, got => do
    let a ← resolve expect
    let b ← resolve got
    if ¬ a.isValid ∨ ¬ b.isValid then return .ok
    let ta ← describe a
    let tb ← describe b
    match ta.shape, tb.shape with
    | .var v, _ => bind v b
    | _, .var v => bind v a
    | _, _ => unifyKnown (unifyAt depth) a b ta tb

/-- Unifies two types. A mismatch is one fault that names both. -/
def unify (expect got : TypeId) (span : Span) : Solve Fit := do
  let fit ← unifyAt depthLimit expect got
  match fit with
  | .mismatch reason =>
    let e ← label expect
    let g ← label got
    let message := "type mismatch: expected '" ++ e ++ "', got '" ++ g ++ "'"
    report (.error .typeMismatch span
      (if reason.isEmpty then message else message ++ ": " ++ reason))
  | _ => pure ()
  return fit

/-- Unifies two types as inference sees them. A variable is taken without modifiers. -/
def Inferred.unify (expect got : Inferred) (span : Span) : Solve Fit := do
  let e ← expect.toType
  let g ← got.toType
  Typing.unify e g span

end UnitCheck.Typing
