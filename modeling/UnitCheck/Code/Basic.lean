import UnitCheck.Span
import UnitCheck.Syntax.Kind
import UnitCheck.Ty.Table

/-!
# Lowered code

A unit after its constructs have been reduced to a few: values, lines (statements), blocks and local
slots, kept in tables and named by position. Slot zero of every table is unused, and identifier zero
means "none".

Code can be written by hand, so a literal or a loop may lack its parts (`broken`), and kinds may be
unknown. A `Place` that is `missing` was left out.
-/

namespace UnitCheck.Code

open Syntax (LiteralKind BinaryOp UnaryOp TypeDeclKind)

/-- Something that can be read, written and referred to: a local slot or a part of a place. -/
inductive Place
  | missing
  | slot (l : LocalId)
  | index (base : Place) (index : ValueId)
  | deref (base : Place)
  | field (base : Place) (name : Text)
  | unknown (code : { c : UInt8 // c = 0 ∨ 4 < c })
deriving DecidableEq

namespace Place

/-- The slot that a place is a part of; zero if there is none. -/
def root : Place → LocalId
  | missing | unknown _ => 0
  | slot l => l
  | index b _ | deref b | field b _ => root b

end Place

/-- The branches of an `if`, in order: conditions with their blocks, and at most one block at the
end that needs no condition. -/
inductive Chain
  | last (cond : ValueId) (body : BlockId)
  | orElse (cond : ValueId) (body otherwise : BlockId)
  | orIf (cond : ValueId) (body : BlockId) (next : Chain)
deriving DecidableEq

namespace Chain

/-- The branches in order; the condition of the last one may be zero. -/
def branches : Chain → List (ValueId × BlockId)
  | last c b => [(c, b)]
  | orElse c b e => [(c, b), (0, e)]
  | orIf c b next => (c, b) :: branches next

/-- The chain with one more branch at its end; nothing comes behind a block without condition. -/
def snoc : Chain → ValueId → BlockId → Chain
  | last c b, cond, body => orIf c b (last cond body)
  | orElse c b e, _, _ => orElse c b e
  | orIf c b next, cond, body => orIf c b (snoc next cond body)

/-- The chain with a block that needs no condition at its end. -/
def close : Chain → BlockId → Chain
  | last c b, body => orElse c b body
  | orElse c b e, _ => orElse c b e
  | orIf c b next, body => orIf c b (close next body)

end Chain

inductive Value
  /-- Stands where something was wrong. -/
  | poison
  | literal (kind : LiteralKind) (text : Text)
  | load (place : Place)
  | funcRef (decl : DeclId)
  | binary (op : BinaryOp) (left right : ValueId)
  | unary (op : UnaryOp) (operand : ValueId)
  | ref (place : Place) (isMut : Bool)
  | call (callee : ValueId) (args : List ValueId) (candidates : List DeclId)
  | cast (operand : ValueId) (type : TypeId)
  | block (body : BlockId)
  | ifElse (chain : Option Chain)
  /-- A loop; the condition may be zero. -/
  | whileLoop (cond : ValueId) (body : BlockId)
  | forLoop (binding : LocalId) (iter : ValueId) (body : BlockId)
  /-- An array without contents; the type of its elements may be zero. -/
  | stackArray (elem : TypeId) (length : UInt32)
  | broken (code : { c : UInt8 // c = 1 ∨ c = 12 })
  | unknown (code : { c : UInt8 // 13 < c })
deriving DecidableEq

namespace Value

def code : Value → UInt8
  | poison => 0
  | literal .. => 1
  | load _ => 2
  | funcRef _ => 3
  | binary .. => 4
  | unary .. => 5
  | ref .. => 6
  | call .. => 7
  | cast .. => 8
  | block _ => 9
  | ifElse _ => 10
  | whileLoop .. => 11
  | forLoop .. => 12
  | stackArray .. => 13
  | broken c => c.1
  | unknown c => c.1

def kindNames : List String :=
  ["error", "lit", "load", "fnref", "binary", "unary", "ref", "call", "cast", "block", "if",
   "while", "for", "stack_array"]

def kindText (v : Value) : Text := (kindNames[v.code.toNat]?).getD "unknown"

end Value

inductive Line
  /-- Brings a slot to life, with a value unless that is zero. -/
  | bind (slot : LocalId) (value : ValueId)
  | assign (place : Place) (value : ValueId)
  | eval (value : ValueId)
  /-- Leaves the function, with a value unless that is zero. -/
  | return_ (value : ValueId)
  | break_ (value : ValueId)
  | continue_
  | unknown (code : { c : UInt8 // c = 0 ∨ 6 < c })
deriving DecidableEq

namespace Line

def code : Line → UInt8
  | bind .. => 1
  | assign .. => 2
  | eval _ => 3
  | return_ _ => 4
  | break_ _ => 5
  | continue_ => 6
  | unknown c => c.1

def kindNames : List String := ["let", "assign", "expr", "return", "break", "continue"]

def kindText (l : Line) : Text :=
  if l.code = 0 then "unknown" else (kindNames[l.code.toNat - 1]?).getD "unknown"

def isJump : Line → Bool
  | return_ _ | break_ _ | continue_ => true
  | _ => false

def place : Line → Place
  | assign p _ => p
  | _ => .missing

end Line

/-- Lines in order, and the value of the whole unless that is zero. -/
structure Block where
  lines : List LineId
  tail : ValueId
deriving DecidableEq

structure Local where
  name : Text
  /-- Zero for a slot that no program text declares. -/
  decl : DeclId
  /-- Zero if no type is declared. -/
  type : TypeId
  modifier : Modifier
deriving DecidableEq, Inhabited

/-! ### Items -/

structure ItemKind where
  code : UInt8
deriving DecidableEq

namespace ItemKind

@[match_pattern] def func : ItemKind := ⟨1⟩
@[match_pattern] def type : ItemKind := ⟨2⟩
@[match_pattern] def global : ItemKind := ⟨3⟩

def toText : ItemKind → Text
  | func => "fn"
  | type => "type"
  | global => "global"
  | _ => "unknown"

end ItemKind

structure Param where
  slot : LocalId
  decl : DeclId
  type : TypeId
deriving DecidableEq

structure Func where
  params : List Param
  result : TypeId
  /-- Zero if the function is only announced. -/
  body : BlockId
  /-- The type around a method. -/
  owner : DeclId
  type : TypeId
deriving DecidableEq

structure Member where
  decl : DeclId
  name : Text
  type : TypeId
deriving DecidableEq

structure TypeItem where
  kind : TypeDeclKind
  type : TypeId
  fields : List Member
  variants : List Member
  methods : List DeclId
deriving DecidableEq

structure Global where
  slot : LocalId
  line : LineId
deriving DecidableEq

structure Item where
  kind : ItemKind
  decl : DeclId
  name : Text
  span : Span
  func : Option Func
  type : Option TypeItem
  global : Option Global
deriving DecidableEq

structure Impl where
  trait : DeclId
  target : TypeId
  methods : List DeclId
  span : Span
deriving DecidableEq

structure Marks where
  bits : UInt8
deriving DecidableEq

namespace Marks

/-- Made by lowering, not written in the program. -/
def synthetic : Marks := ⟨1⟩
def unstable : Marks := ⟨2⟩

def has (m mark : Marks) : Bool := m.bits &&& mark.bits != 0

def or (m mark : Marks) : Marks := ⟨m.bits ||| mark.bits⟩

end Marks

structure Counters where
  blocks : Nat
  lines : Nat
  values : Nat
  locals : Nat
deriving DecidableEq

structure Module where
  /-- Items by declaration; the last one with a declaration counts. -/
  items : Array (DeclId × Item)
  itemOrder : List DeclId
  impls : List Impl
  /-- The lines at the top of the unit. -/
  globals : List LineId
  blocks : Array Block
  lines : Array Line
  values : Array Value
  locals : Array Local
  blockSpans : Array Span
  lineSpans : Array Span
  valueSpans : Array Span
  localSpans : Array Span
  lineMarks : List (LineId × Marks)
  valueMarks : List (ValueId × Marks)
  localMarks : List (LocalId × Marks)
  counters : Counters
  types : TypeTable

namespace Module

def empty (types : TypeTable) : Module where
  items := #[]
  itemOrder := []
  impls := []
  globals := []
  blocks := #[⟨[], 0⟩]
  lines := #[.unknown ⟨0, .inl rfl⟩]
  values := #[.poison]
  locals := #[⟨.empty, 0, 0, .default⟩]
  blockSpans := #[.zero]
  lineSpans := #[.zero]
  valueSpans := #[.zero]
  localSpans := #[.zero]
  lineMarks := []
  valueMarks := []
  localMarks := []
  counters := ⟨0, 0, 0, 0⟩
  types := types

/-! ### Looking things up -/

def block? (m : Module) (i : BlockId) : Option Block :=
  if i.isValid then m.blocks[i.index]? else none

def line? (m : Module) (i : LineId) : Option Line := if i.isValid then m.lines[i.index]? else none

def value? (m : Module) (i : ValueId) : Option Value :=
  if i.isValid then m.values[i.index]? else none

def local? (m : Module) (i : LocalId) : Option Local :=
  if i.isValid then m.locals[i.index]? else none

def valueSpan (m : Module) (i : ValueId) : Span := (m.valueSpans[i.index]?).getD .zero

def lineSpan (m : Module) (i : LineId) : Span := (m.lineSpans[i.index]?).getD .zero

def localSpan (m : Module) (i : LocalId) : Span := (m.localSpans[i.index]?).getD .zero

def marksOf {k : IdKind} (marks : List (Id k × Marks)) (i : Id k) : Marks :=
  (marks.lookup i).getD ⟨0⟩

def item? (m : Module) (d : DeclId) : Option Item :=
  (m.items.toList.reverse.lookup d)

def sortedDecls (m : Module) : List DeclId :=
  m.itemOrder.mergeSort fun a b => a.index ≤ b.index

/-- The items in the order of their declarations; `none` where an item is missing. -/
def sortedItems (m : Module) : List (Option Item) := m.sortedDecls.map m.item?

def findFunc? (m : Module) (name : Text) : Option Item :=
  m.itemOrder.findSome? fun d =>
    match m.item? d with
    | some i => if i.kind = .func ∧ i.name = name then some i else none
    | none => none

/-- The first slot that a declaration brought to life; zero if there is none. -/
def localOf (m : Module) (d : DeclId) : LocalId :=
  if d.isValid then
    match (m.locals.toList.zipIdx.drop 1).find? fun (l, _) => l.decl = d with
    | some (_, i) => ⟨i⟩
    | none => 0
  else 0

/-! ### Adding things -/

def addBlock (m : Module) (span : Span) : Module × BlockId :=
  ({ m with
      blocks := m.blocks.push ⟨[], 0⟩
      blockSpans := m.blockSpans.push span
      counters := { m.counters with blocks := m.counters.blocks + 1 } },
   ⟨m.counters.blocks + 1⟩)

def addLine (m : Module) (l : Line) (span : Span) : Module × LineId :=
  ({ m with
      lines := m.lines.push l
      lineSpans := m.lineSpans.push span
      counters := { m.counters with lines := m.counters.lines + 1 } },
   ⟨m.counters.lines + 1⟩)

def addValue (m : Module) (v : Value) (span : Span) : Module × ValueId :=
  ({ m with
      values := m.values.push v
      valueSpans := m.valueSpans.push span
      counters := { m.counters with values := m.counters.values + 1 } },
   ⟨m.counters.values + 1⟩)

def addLocal (m : Module) (l : Local) (span : Span) : Module × LocalId :=
  ({ m with
      locals := m.locals.push l
      localSpans := m.localSpans.push span
      counters := { m.counters with locals := m.counters.locals + 1 } },
   ⟨m.counters.locals + 1⟩)

/-- Adds an item; gives its position among all items ever added. -/
def addItem (m : Module) (i : Item) : Module × Nat :=
  ({ m with
      items := m.items.push (i.decl, i)
      itemOrder := if (m.item? i.decl).isSome then m.itemOrder else m.itemOrder ++ [i.decl] },
   m.items.size)

def modifyItem (m : Module) (at_ : Nat) (f : Item → Item) : Module :=
  { m with items := m.items.modify at_ fun (d, i) => (d, f i) }

def modifyBlock (m : Module) (i : BlockId) (f : Block → Block) : Module :=
  { m with blocks := m.blocks.modify i.index f }

def mark {k : IdKind} (marks : List (Id k × Marks)) (i : Id k) (x : Marks) : List (Id k × Marks) :=
  (i, (marksOf marks i).or x) :: marks

end Module

end UnitCheck.Code
