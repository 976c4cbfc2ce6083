import UnitCheck.Code.Rows
import UnitCheck.Data.Lenient
import UnitCheck.Text.Case

/-!
# Reading code from documents

Code given as a JSON document, in the members that the document of a module has. What is left out
keeps the value that it has in an empty module. Letter case does not matter in the names of members,
and members of other names are passed over; but a number has to be one that fits, and a value of the
wrong type makes the whole document unreadable.
-/

namespace UnitCheck.Code.Reader

def members? : Json → Option (List (Text × Json))
  | .null => some []
  | .obj ms => some (ms.map fun (k, v) => (k.lower, v))
  | _ => none

/-- The member of a name, the value of a missing one otherwise. Null leaves the value as it is. -/
def member {α : Type} (ms : List (Text × Json)) (k : String) (read : Json → Option α)
    (missing : α) : Option α :=
  (ms.filter fun m => m.1 == Text.ofString k).foldlM (fun _ m => read m.2) missing

def nat? (limit : Nat) : Json → Option Nat
  | .null => some 0
  | .number t =>
    let n := Json.digitsValue t.bytes
    if t.bytes.all Json.isDigit && n < limit then some n else none
  | _ => none

def word? (j : Json) : Option UInt32 := (nat? (Nat.pow 2 32) j).map UInt32.ofNat

def byte? (j : Json) : Option UInt8 := (nat? 256 j).map UInt8.ofNat

def id? {k : IdKind} (j : Json) : Option (Id k) := (nat? (Nat.pow 2 32) j).map Id.mk

def bool? : Json → Option Bool
  | .null => some false
  | .bool b => some b
  | _ => none

def text? : Json → Option Text
  | .null => some .empty
  | .str t => some t
  | _ => none

def list? {α : Type} (read : Json → Option α) : Json → Option (List α)
  | .null => some []
  | .arr xs => xs.mapM read
  | _ => none

def table? {α : Type} (read : Json → Option α) (j : Json) : Option (Array α) :=
  (list? read j).map List.toArray

def option? {α : Type} (read : Json → Option α) : Json → Option (Option α)
  | .null => some none
  | j => (read j).map some

def map? {k : IdKind} {α : Type} (read : Json → Option α) : Json → Option (List (Id k × α))
  | .null => some []
  | .obj ms => ms.mapM fun (k, v) => do
      if k.isEmpty then none
      pure (← id? (.number k), ← read v)
  | _ => none

def span? (j : Json) : Option Span := do
  let ms ← members? j
  pure ⟨← member ms "file" word? 0, ← member ms "start" word? 0, ← member ms "end" word? 0⟩

/-! ### Values and lines -/

def place? : Nat → Json → Option Place
  | _, .null => some .missing
  | 0, _ => none
  | fuel + 1, j => do
    let ms ← members? j
    let row : PlaceRow := ⟨← member ms "kind" byte? 0, ← member ms "local" id? 0,
      ← member ms "base" (place? fuel) .missing, ← member ms "index" id? 0,
      ← member ms "field" text? .empty⟩
    pure row.toPlace

def chain? : Nat → Json → Option Chain
  | 0, _ => none
  | fuel + 1, j => do
    let ms ← members? j
    let arm? := fun j => do
      let ms ← members? j
      pure (⟨← member ms "kind" byte? 0, ← member ms "body" id? 0,
        ← member ms "if" (option? (chain? fuel)) none⟩ : ArmRow)
    let row : ChainRow := ⟨← member ms "cond" id? 0, ← member ms "body" id? 0,
      ← member ms "else" (option? arm?) none⟩
    pure row.toChain

def literal? (j : Json) : Option LiteralRow := do
  let ms ← members? j
  pure ⟨⟨← member ms "kind" byte? 0⟩, ← member ms "text" text? .empty⟩

def loop? (j : Json) : Option LoopRow := do
  let ms ← members? j
  pure ⟨← member ms "binding" id? 0, ← member ms "iter" id? 0, ← member ms "body" id? 0⟩

def value? (j : Json) : Option Value := do
  let ms ← members? j
  let row : ValueRow := {
    kind := ← member ms "kind" byte? 0
    literal := ← member ms "lit" (option? literal?) none
    place := ← member ms "place" (place? j.depth) .missing
    decl := ← member ms "decl" id? 0
    op := ⟨← member ms "op" byte? 0⟩
    unaryOp := ⟨← member ms "unary_op" byte? 0⟩
    left := ← member ms "left" id? 0
    right := ← member ms "right" id? 0
    operand := ← member ms "operand" id? 0
    isMut := ← member ms "mut" bool? false
    callee := ← member ms "callee" id? 0
    args := ← member ms "args" (list? id?) []
    candidates := ← member ms "candidates" (list? id?) []
    type := ← member ms "type" id? 0
    length := ← member ms "len" word? 0
    block := ← member ms "block" id? 0
    cond := ← member ms "cond" id? 0
    chain := ← member ms "if" (option? (chain? j.depth)) none
    loop := ← member ms "for" (option? loop?) none }
  pure row.toValue

def line? (j : Json) : Option Line := do
  let ms ← members? j
  let row : LineRow := ⟨← member ms "kind" byte? 0, ← member ms "local" id? 0,
    ← member ms "place" (place? j.depth) .missing, ← member ms "value" id? 0⟩
  pure row.toLine

def block? (j : Json) : Option Block := do
  let ms ← members? j
  pure ⟨← member ms "stmts" (list? id?) [], ← member ms "tail" id? 0⟩

def local? (j : Json) : Option Local := do
  let ms ← members? j
  pure ⟨← member ms "name" text? .empty, ← member ms "decl" id? 0, ← member ms "type" id? 0,
    ⟨← member ms "modifier" byte? 0⟩⟩

/-! ### Items -/

def param? (j : Json) : Option Param := do
  let ms ← members? j
  pure ⟨← member ms "local" id? 0, ← member ms "decl" id? 0, ← member ms "type" id? 0⟩

def func? (j : Json) : Option Func := do
  let ms ← members? j
  pure ⟨← member ms "params" (list? param?) [], ← member ms "result" id? 0,
    ← member ms "body" id? 0, ← member ms "owner" id? 0, ← member ms "fn_type" id? 0⟩

def memberItem? (j : Json) : Option Member := do
  let ms ← members? j
  pure ⟨← member ms "decl" id? 0, ← member ms "name" text? .empty, ← member ms "type" id? 0⟩

def typeItem? (j : Json) : Option TypeItem := do
  let ms ← members? j
  pure ⟨⟨← member ms "kind" byte? 0⟩, ← member ms "type" id? 0,
    ← member ms "fields" (list? memberItem?) [], ← member ms "variants" (list? memberItem?) [],
    ← member ms "methods" (list? id?) []⟩

def global? (j : Json) : Option Global := do
  let ms ← members? j
  pure ⟨← member ms "local" id? 0, ← member ms "stmt" id? 0⟩

/-- An item; a missing one is a function without contents. -/
def item? : Json → Option Item
  | .null => some ⟨.func, 0, .empty, .zero, none, none, none⟩
  | j => do
    let ms ← members? j
    pure ⟨⟨← member ms "kind" byte? 0⟩, ← member ms "decl" id? 0, ← member ms "name" text? .empty,
      ← member ms "span" span? .zero, ← member ms "func" (option? func?) none,
      ← member ms "type" (option? typeItem?) none, ← member ms "global" (option? global?) none⟩

def impl? (j : Json) : Option Impl := do
  let ms ← members? j
  pure ⟨← member ms "trait" id? 0, ← member ms "target" id? 0, ← member ms "methods" (list? id?) [],
    ← member ms "span" span? .zero⟩

/-! ### Modules -/

def marks? (j : Json) : Option Marks := (byte? j).map Marks.mk

def counters? (j : Json) : Option Counters := do
  let ms ← members? j
  let count? := nat? (Nat.pow 2 32)
  pure ⟨← member ms "blocks" count? 0, ← member ms "stmts" count? 0, ← member ms "exprs" count? 0,
    ← member ms "locals" count? 0⟩

def module? (types : TypeTable) (j : Json) : Option Module := do
  let e := Module.empty types
  let ms ← members? j
  let spans ← member ms "spans" members? []
  let attrs ← member ms "attrs" members? []
  pure { e with
    items := (← member ms "items" (map? item?) []).toArray
    itemOrder := ← member ms "item_order" (list? id?) []
    impls := ← member ms "impls" (list? impl?) []
    globals := ← member ms "globals" (list? id?) []
    blocks := ← member ms "blocks" (table? block?) e.blocks
    lines := ← member ms "stmt_table" (table? line?) e.lines
    values := ← member ms "expr_table" (table? value?) e.values
    locals := ← member ms "locals" (table? local?) e.locals
    blockSpans := ← member spans "blocks" (table? span?) e.blockSpans
    lineSpans := ← member spans "stmts" (table? span?) e.lineSpans
    valueSpans := ← member spans "exprs" (table? span?) e.valueSpans
    localSpans := ← member spans "locals" (table? span?) e.localSpans
    lineMarks := ← member attrs "stmts" (map? marks?) []
    valueMarks := ← member attrs "exprs" (map? marks?) []
    localMarks := ← member attrs "locals" (map? marks?) []
    counters := ← member ms "ids" counters? ⟨0, 0, 0, 0⟩ }

end UnitCheck.Code.Reader
