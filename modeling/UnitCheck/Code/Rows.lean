import UnitCheck.Code.Basic

/-!
# Lowered code in rows

Files hold every value in one and the same shape of record, of which each kind uses some fields; the
same goes for lines and places. A row may lack what its kind needs. `ofValue` and `toValue` (and
so on) go between rows and the forms that the rest of the library works on.
-/

namespace UnitCheck.Code

open Syntax (LiteralKind BinaryOp UnaryOp)

/-- One step of a place, given what it is a part of. -/
structure PlaceRow where
  kind : UInt8
  slot : LocalId
  base : Place
  index : ValueId
  name : Text

namespace PlaceRow

def toPlace (r : PlaceRow) : Place :=
  if h : r.kind = 0 ∨ 4 < r.kind then .unknown ⟨r.kind, h⟩
  else match r.kind with
    | 1 => .slot r.slot
    | 2 => .index r.base r.index
    | 3 => .deref r.base
    | _ => .field r.base r.name

def ofPlace : Place → PlaceRow
  | .missing => ⟨0, 0, .missing, 0, .empty⟩
  | .slot l => ⟨1, l, .missing, 0, .empty⟩
  | .index b i => ⟨2, 0, b, i, .empty⟩
  | .deref b => ⟨3, 0, b, 0, .empty⟩
  | .field b name => ⟨4, 0, b, 0, name⟩
  | .unknown k => ⟨k.1, 0, .missing, 0, .empty⟩

/-- A missing place has no row. -/
def ofPlace? : Place → Option PlaceRow
  | .missing => none
  | p => some (.ofPlace p)

def toPlaceOrMissing (r : Option PlaceRow) : Place := (r.map toPlace).getD .missing

end PlaceRow

/-- What stands behind a branch: a block without condition, or the rest of the chain. -/
structure ArmRow where
  kind : UInt8
  body : BlockId
  next : Option Chain

structure ChainRow where
  cond : ValueId
  body : BlockId
  arm : Option ArmRow

namespace ChainRow

def toChain (r : ChainRow) : Chain :=
  match r.arm with
  | some ⟨1, otherwise, _⟩ => .orElse r.cond r.body otherwise
  | some ⟨2, _, some next⟩ => .orIf r.cond r.body next
  | _ => .last r.cond r.body

def ofChain : Chain → ChainRow
  | .last c b => ⟨c, b, none⟩
  | .orElse c b e => ⟨c, b, some ⟨1, e, none⟩⟩
  | .orIf c b next => ⟨c, b, some ⟨2, 0, some next⟩⟩

end ChainRow

structure LoopRow where
  binding : LocalId
  iter : ValueId
  body : BlockId

structure LiteralRow where
  kind : LiteralKind
  text : Text

structure ValueRow where
  kind : UInt8
  literal : Option LiteralRow
  place : Place
  decl : DeclId
  op : BinaryOp
  unaryOp : UnaryOp
  left : ValueId
  right : ValueId
  operand : ValueId
  isMut : Bool
  callee : ValueId
  args : List ValueId
  candidates : List DeclId
  type : TypeId
  length : UInt32
  block : BlockId
  cond : ValueId
  chain : Option Chain
  loop : Option LoopRow

namespace ValueRow

def ofKind (k : UInt8) : ValueRow :=
  ⟨k, none, .missing, 0, ⟨0⟩, ⟨0⟩, 0, 0, 0, false, 0, [], [], 0, 0, 0, 0, none, none⟩

def toValue (r : ValueRow) : Value :=
  if h : 13 < r.kind then .unknown ⟨r.kind, h⟩
  else match r.kind with
    | 0 => .poison
    | 1 => match r.literal with
      | some l => .literal l.kind l.text
      | none => .broken ⟨1, .inl rfl⟩
    | 2 => .load r.place
    | 3 => .funcRef r.decl
    | 4 => .binary r.op r.left r.right
    | 5 => .unary r.unaryOp r.operand
    | 6 => .ref r.place r.isMut
    | 7 => .call r.callee r.args r.candidates
    | 8 => .cast r.operand r.type
    | 9 => .block r.block
    | 10 => .ifElse r.chain
    | 11 => .whileLoop r.cond r.block
    | 12 => match r.loop with
      | some l => .forLoop l.binding l.iter l.body
      | none => .broken ⟨12, .inr rfl⟩
    | _ => .stackArray r.type r.length

def ofValue (v : Value) : ValueRow :=
  let row := ofKind v.code
  match v with
  | .poison | .broken _ | .unknown _ => row
  | .literal k t => { row with literal := some ⟨k, t⟩ }
  | .load p => { row with place := p }
  | .funcRef d => { row with decl := d }
  | .binary op l r => { row with op := op, left := l, right := r }
  | .unary op v => { row with unaryOp := op, operand := v }
  | .ref p isMut => { row with place := p, isMut := isMut }
  | .call f args candidates => { row with callee := f, args := args, candidates := candidates }
  | .cast v t => { row with operand := v, type := t }
  | .block b => { row with block := b }
  | .ifElse c => { row with chain := c }
  | .whileLoop c b => { row with cond := c, block := b }
  | .forLoop l i b => { row with loop := some ⟨l, i, b⟩ }
  | .stackArray t n => { row with type := t, length := n }

end ValueRow

structure LineRow where
  kind : UInt8
  slot : LocalId
  place : Place
  value : ValueId

namespace LineRow

def toLine (r : LineRow) : Line :=
  if h : r.kind = 0 ∨ 6 < r.kind then .unknown ⟨r.kind, h⟩
  else match r.kind with
    | 1 => .bind r.slot r.value
    | 2 => .assign r.place r.value
    | 3 => .eval r.value
    | 4 => .return_ r.value
    | 5 => .break_ r.value
    | _ => .continue_

def ofLine (l : Line) : LineRow :=
  match l with
  | .bind s v => ⟨l.code, s, .missing, v⟩
  | .assign p v => ⟨l.code, 0, p, v⟩
  | .eval v | .return_ v | .break_ v => ⟨l.code, 0, .missing, v⟩
  | .continue_ | .unknown _ => ⟨l.code, 0, .missing, 0⟩

end LineRow

end UnitCheck.Code
