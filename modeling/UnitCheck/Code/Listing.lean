import UnitCheck.Code.Basic
import UnitCheck.Ty.Label

/-!
# Listings

Lowered code as text, one line a line. A listing may show the type of every value and the span of
every line.
-/

namespace UnitCheck.Code

structure Listing where
  module : Module
  /-- The types to show behind values. -/
  typeOf : ValueId → Option TypeId
  showSpans : Bool

namespace Listing

def plain (m : Module) : Listing := ⟨m, fun _ => none, false⟩

def idList {k : IdKind} (ids : List (Id k)) : Text :=
  "[" ++ Text.join " " (ids.map fun i => Text.ofNat i.index) ++ "]"

def indentation (depth : Nat) : Text := Text.times depth "  "

/-- A type; one that is not known is a line. -/
def typeText (s : Listing) (i : TypeId) : Text :=
  if i.isValid then s.module.types.label i else "_"

def localText (s : Listing) (i : LocalId) : Text :=
  match s.module.local? i with
  | some l => l.name ++ "#" ++ Text.ofNat i.index
  | none => "<local " ++ Text.ofNat i.index ++ ">"

def placeText (s : Listing) (value : ValueId → Except Abort Text) : Place → Except Abort Text
  | .missing => .ok "<error>"
  | .slot l => .ok (s.localText l)
  | .index b i => do return (← s.placeText value b) ++ "[" ++ (← value i) ++ "]"
  | .deref b => do return "*" ++ (← s.placeText value b)
  | .field b name => do return (← s.placeText value b) ++ "." ++ name
  | .unknown _ => .ok .empty

/-- A word, with a value behind it unless that is zero. -/
def jumpText (value : ValueId → Except Abort Text) (word : Text) (v : ValueId) :
    Except Abort Text := do
  if v.isValid then return word ++ " " ++ (← value v) else return word

def lineBody (s : Listing) (value : ValueId → Except Abort Text) (l : Line) :
    Except Abort Text := do
  match l with
  | .bind slot v =>
    let l? := s.module.local? slot
    let modifier : Text := match l? with
      | some l => if l.modifier = .default then .empty else l.modifier.toText ++ " "
      | none => .empty
    let type : Text := match l? with
      | some l => if l.type.isValid then ": " ++ s.typeText l.type else .empty
      | none => .empty
    let value ← if v.isValid then (do return " = " ++ (← value v)) else pure Text.empty
    return "let " ++ modifier ++ s.localText slot ++ type ++ value
  | .assign p v => return (← s.placeText value p) ++ " = " ++ (← value v)
  | .eval v => value v
  | .return_ v => jumpText value "return" v
  | .break_ v => jumpText value "break" v
  | .continue_ | .unknown _ => return l.kindText

/-- A line with its indentation and its end; nothing if there is no such line. -/
def lineText (s : Listing) (value : ValueId → Except Abort Text) (depth : Nat) (i : LineId) :
    Except Abort Text := do
  match s.module.line? i with
  | none => return .empty
  | some l =>
    let mark : Text :=
      if (Module.marksOf s.module.lineMarks i).has .synthetic then "@synthetic " else .empty
    let span := s.module.lineSpan i
    let place : Text := if s.showSpans then
      " @" ++ Text.ofNat span.start.toNat ++ ".." ++ Text.ofNat span.stop.toNat else .empty
    return indentation depth ++ mark ++ (← s.lineBody value l) ++ place ++ "\n"

/-- A block between braces; `depth` is the indentation of the line that it starts in. -/
def blockText (s : Listing) (value : Nat → ValueId → Except Abort Text) (depth : Nat)
    (i : BlockId) : Except Abort Text := do
  match s.module.block? i with
  | none => return "\x7b\x7d"
  | some b =>
    let lines ← b.lines.mapM (s.lineText (value (depth + 1)) (depth + 1))
    let tail ← if b.tail.isValid then
        (do return indentation (depth + 1) ++ "tail " ++ (← value (depth + 1) b.tail) ++ "\n")
      else pure Text.empty
    return "\x7b\n" ++ Text.concat lines ++ tail ++ indentation depth ++ "\x7d"

def laterBranches (s : Listing) (value : Nat → ValueId → Except Abort Text) (depth : Nat) :
    List (ValueId × BlockId) → Except Abort Text
  | [] => .ok .empty
  | (cond, body) :: rest => do
    let head ← if cond.isValid then (do return " else if " ++ (← value depth cond) ++ " ")
      else pure (Text.ofString " else ")
    return head ++ (← s.blockText value depth body) ++ (← s.laterBranches value depth rest)

def chainText (s : Listing) (value : Nat → ValueId → Except Abort Text) (depth : Nat)
    (branches : List (ValueId × BlockId)) : Except Abort Text := do
  match branches with
  | [] => return .empty
  | (cond, body) :: rest =>
    return "if " ++ (← value depth cond) ++ " " ++ (← s.blockText value depth body) ++
      (← s.laterBranches value depth rest)

def valueBody (s : Listing) (value : Nat → ValueId → Except Abort Text) (depth : Nat) (v : Value) :
    Except Abort Text := do
  match v with
  | .poison => return "<error>"
  | .literal _ text => return text
  | .load p => s.placeText (value depth) p
  | .funcRef d => return "fn#" ++ Text.ofNat d.index
  | .binary op l r =>
    return "(" ++ (← value depth l) ++ " " ++ op.toText ++ " " ++ (← value depth r) ++ ")"
  | .unary op e => return op.toText ++ (← value depth e)
  | .ref p isMut =>
    let word : Text := if isMut then "&mut " else "&"
    return word ++ (← s.placeText (value depth) p)
  | .call callee args candidates =>
    let callee ← value depth callee
    let args ← args.mapM (value depth)
    let choice : Text :=
      if 1 < candidates.length then " candidates=" ++ idList candidates else .empty
    return callee ++ "(" ++ Text.join ", " args ++ ")" ++ choice
  | .cast e t => return (← value depth e) ++ " as " ++ s.typeText t
  | .block b => s.blockText value depth b
  | .ifElse none => return .empty
  | .ifElse (some c) => s.chainText value depth c.branches
  | .whileLoop cond body =>
    let cond ← if cond.isValid then (do return (← value depth cond) ++ " ") else pure Text.empty
    return "while " ++ cond ++ (← s.blockText value depth body)
  | .forLoop binding iter body =>
    return "@unstable for " ++ s.localText binding ++ " in " ++ (← value depth iter) ++ " " ++
      (← s.blockText value depth body)
  | .stackArray elem n =>
    return "stack_array<" ++ s.typeText elem ++ ">[" ++ Text.ofNat n.toNat ++ "]"
  | .broken _ => throw .malformed
  | .unknown _ => return "<" ++ v.kindText ++ ">"

/-- A value with its type, at an indentation; values are nested at most `fuel` deep. -/
def valueAt (s : Listing) : Nat → Nat → ValueId → Except Abort Text
  | 0, _, _ => .error .malformed
  | fuel + 1, depth, i => do
    match s.module.value? i with
    | none => return "<nil>"
    | some v =>
      let body ← s.valueBody (valueAt s fuel) depth v
      match s.typeOf i with
      | none => return body
      | some t => return body ++ " :: " ++ s.typeText t

/-- A value with its type. Values are nested no deeper than there are values. -/
def valueText (s : Listing) : Nat → ValueId → Except Abort Text :=
  s.valueAt (s.module.values.size + 1)

/-! ### Items -/

def memberText (s : Listing) (v : Member) : Text :=
  let type : Text := if v.type.isValid then "(" ++ s.typeText v.type ++ ")" else .empty
  "  variant " ++ v.name ++ type ++ "\n"

def typeItemText (s : Listing) (i : Item) (t : TypeItem) : Text :=
  "type " ++ i.name ++ " <" ++ t.kind.toText ++ "> (decl=" ++ Text.ofNat i.decl.index ++ ")\n" ++
    Text.concat (t.fields.map fun f => "  field " ++ f.name ++ ": " ++ s.typeText f.type ++ "\n") ++
    Text.concat (t.variants.map s.memberText)

def implText (s : Listing) (i : Impl) : Text :=
  "impl trait=" ++ Text.ofNat i.trait.index ++ " for " ++ s.typeText i.target ++ " methods=" ++
    idList i.methods ++ "\n"

def funcText (s : Listing) (i : Item) (f : Func) : Except Abort Text := do
  let params := f.params.map fun p => s.localText p.slot ++ ": " ++ s.typeText p.type
  let owner : Text := if f.owner.isValid then ", owner=" ++ Text.ofNat f.owner.index else .empty
  let head := "\nfn " ++ i.name ++ "(" ++ Text.join ", " params ++ ") -> " ++ s.typeText f.result ++
    " (decl=" ++ Text.ofNat i.decl.index ++ owner ++ ")"
  if f.body.isValid then return head ++ " " ++ (← s.blockText s.valueText 0 f.body) ++ "\n"
  else return head ++ "\n"

/-- The listing of a module: types, implementations, global lines and functions. -/
def text (s : Listing) : Except Abort Text := do
  let m := s.module
  let items ← m.sortedItems.mapM fun
    | some i => .ok i
    | none => .error Abort.malformed
  let types ← (items.filter fun i => i.kind = .type).mapM fun i =>
    match i.type with
    | some t => .ok (s.typeItemText i t)
    | none => .error Abort.malformed
  let globals ← m.globals.mapM (s.lineText (s.valueText 1) 1)
  let functions ← (items.filter fun i => i.kind = .func).mapM fun i =>
    match i.func with
    | some f => s.funcText i f
    | none => .error Abort.malformed
  let globalText : Text := if m.globals.isEmpty then .empty
    else "globals \x7b\n" ++ Text.concat globals ++ "\x7d\n"
  return Text.concat types ++ Text.concat (m.impls.map s.implText) ++ globalText ++
    Text.concat functions

end Listing

end UnitCheck.Code
