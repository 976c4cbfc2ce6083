import UnitCheck.Proofs.Code.Uses
import UnitCheck.Proofs.Typing.Solid

/-!
# Regular modules

What inference relies on in a module: everything that a value, a line or a block refers to is there,
the types that are written are solid and have no variables, operands come before the values that use
them, and every value is used once. In clean code nothing stands for a fault of an earlier pass
either: no value is poison, no type is the error type, every function that is named has a body or is
announced, and no loop runs over elements, since inference gives the variable of such a loop the
error type. -/

namespace UnitCheck.Code

def Value.blocks : Value → List BlockId
  | block b | whileLoop _ b | forLoop _ _ b => [b]
  | ifElse chain => (chain.elim [] Chain.branches).map Prod.snd
  | _ => []

namespace Module

variable (m : Module) (clean : Prop)

def linesOf (b : BlockId) : List LineId := (m.block? b).elim [] Block.lines

/-! ## Parts of a module -/

def ProperPlace : Place → Prop
  | .missing | .unknown _ => False
  | .slot l => (m.local? l).isSome = true
  | .index base i => ProperPlace base ∧ i.isValid = true
  | .deref base | .field base _ => ProperPlace base

def ProperLine : Line → Prop
  | .bind slot _ => (m.local? slot).isSome = true
  | .assign place v => m.ProperPlace place ∧ v.isValid = true
  | .eval v => v.isValid = true
  | .return_ _ | .break_ _ | .continue_ => True
  | .unknown _ => False

/-- Everything that a value needs is there. Which declarations are functions is left open. -/
def ProperValue (isFunc : DeclId → Prop) : Value → Prop
  | .poison => ¬ clean
  | .literal kind _ => kind.isDeclared = true
  | .load place | .ref place _ => m.ProperPlace place
  | .funcRef d => clean → isFunc d
  | .binary _ left right => left.isValid = true ∧ right.isValid = true
  | .unary op v => op.isDeclared = true ∧ v.isValid = true
  | .call callee args _ => callee.isValid = true ∧ ∀ v ∈ args, v.isValid = true
  | .cast v type => v.isValid = true ∧ m.types.Closed clean type
  | .block b | .whileLoop _ b => (m.block? b).isSome = true
  | .ifElse chain => ∃ c, chain = some c ∧ ∀ x ∈ c.branches, (m.block? x.2).isSome = true
  | .forLoop l iter b =>
    ¬ clean ∧ (m.local? l).isSome = true ∧ iter.isValid = true ∧ (m.block? b).isSome = true
  | .stackArray elem _ => elem.isValid = true → m.types.Closed clean elem
  | .broken _ | .unknown _ => False

/-- A function with its parameters, result and body. -/
structure ProperFunc (f : Func) : Prop where
  params : ∀ p ∈ f.params,
    m.types.Closed clean p.type ∧ ∃ x, m.local? p.slot = some x ∧ x.type = p.type
  result : m.types.Closed clean f.result
  type : m.types.view f.type = .fn (f.params.map Param.type) f.result
  body : f.body.isValid = true → (m.block? f.body).isSome = true

/-- A declared type with its members. A variant may have no type. -/
structure ProperType (t : TypeItem) : Prop where
  type : m.types.Closed clean t.type
  fields : ∀ x ∈ t.fields, m.types.Closed clean x.type
  variants : ∀ x ∈ t.variants, x.type.isValid = true → m.types.Closed clean x.type

structure ProperItem (i : Item) : Prop where
  kind_func : i.kind = .func ↔ i.func.isSome = true
  kind_type : i.kind = .type → i.type.isSome = true
  func : ∀ f, i.func = some f → m.ProperFunc clean f
  type : ∀ t, i.type = some t → m.ProperType clean t

/-- A line of a block is there. -/
structure ProperBlock (b : BlockId) (x : Block) : Prop where
  span : ∃ span, m.blockSpans[b.index]? = some span
  lines : ∀ i ∈ x.lines, (m.line? i).isSome = true

/-! ## Whole modules -/

def bodyOperands (i : Item) : List ValueId := i.func.elim [] fun f => m.blockOperands f.body

/-- The values that are computed in a module, apart from their operands. -/
def roots : List ValueId :=
  m.lineOperands m.globals ++ m.sortedItems.flatMap fun x => x.elim [] m.bodyOperands

def HasFunc (d : DeclId) : Prop := ∃ i f, m.item? d = some i ∧ i.func = some f

/-- A line stands in a block of a value that is computed on the way to one of `vs`. -/
def Inside (vs : List ValueId) (i : LineId) : Prop :=
  ∃ v ∈ vs, ∃ w x, m.Reaches v w ∧ m.value? w = some x ∧ ∃ b ∈ x.blocks, i ∈ m.linesOf b

def Encloses (b : BlockId) (i : LineId) : Prop := i ∈ m.linesOf b ∨ m.Inside (m.blockOperands b) i

def IsGlobal (i : LineId) : Prop := i ∈ m.globals ∨ m.Inside (m.lineOperands m.globals) i

/-- A line is one of the module's own, one of a function or one of a block inside of a value. -/
inductive Places (i : LineId) : Prop
  | global : i ∈ m.globals → Places i
  | func {d : DeclId} {x : Item} {f : Func} : (d, x) ∈ m.items.toList → x.func = some f →
      i ∈ m.linesOf f.body → Places i
  | value {v : ValueId} {x : Value} {b : BlockId} : m.value? v = some x → b ∈ x.blocks →
      i ∈ m.linesOf b → Places i

/-- A module that inference can rely on. -/
structure Regular : Prop where
  types : m.types.WellFormed
  values : ∀ {v : ValueId} {x : Value}, m.value? v = some x → m.ProperValue clean m.HasFunc x
  lines : ∀ {i : LineId} {x : Line}, m.line? i = some x → m.ProperLine x
  blocks : ∀ {b : BlockId} {x : Block}, m.block? b = some x → m.ProperBlock b x
  locals : ∀ {l : LocalId} {x : Local}, m.local? l = some x → x.type.isValid = true →
    m.types.Closed clean x.type
  items : ∀ {d : DeclId} {i : Item}, m.item? d = some i → m.ProperItem clean i
  order : ∀ d, d ∈ m.itemOrder ↔ (m.item? d).isSome = true
  latest : ∀ {d : DeclId} {i : Item}, (d, i) ∈ m.items.toList → m.item? d = some i
  globals : ∀ i ∈ m.globals, (m.line? i).isSome = true
  backward : m.Backward
  once : m.UsedOnce m.roots
  roots : ∀ w ∈ m.roots, w.index < m.values.size
  places : ∀ {i : LineId} {x : Line}, m.line? i = some x → m.Places i

variable {m clean}

theorem ProperValue.mono {isFunc isFunc' : DeclId → Prop} {x : Value}
    (h : m.ProperValue clean isFunc x)
    (hmono : clean → ∀ d, isFunc d → isFunc' d) : m.ProperValue clean isFunc' x := by
  cases x with
  | funcRef d => exact fun hclean => hmono hclean d (h hclean)
  | _ => exact h

theorem Regular.value?_of_index_lt {v : ValueId} (hvalid : v.isValid = true)
    (hlt : v.index < m.values.size) : ∃ x, m.value? v = some x :=
  ⟨m.values[v.index], by rw [value?, if_pos hvalid, Array.getElem?_eq_getElem hlt]⟩

/-- The type of a function that is referred to has no variables. -/
theorem ProperFunc.closed_type {f : Func} (h : m.ProperFunc clean f) :
    m.types.Closed clean f.type := by
  refine ⟨.fn h.type (fun p hp => ?_) h.result.1, ?_⟩
  · obtain ⟨x, hx, rfl⟩ := List.mem_map.1 hp
    exact (h.params x hx).1.1
  · obtain ⟨w, hw, hsolid⟩ := h.result.2
    have hterms (k : Nat) (p : TypeId) (hp : (f.params.map Param.type)[k]? = some p) :
        ∃ q, m.types.Reads p q ∧ q.Leaves (TypeTerm.isSolid clean) := by
      obtain ⟨x, hx, rfl⟩ := List.mem_map.1 (List.mem_of_getElem? hp)
      exact (h.params x hx).1.2
    obtain ⟨us, hlen, hus⟩ := Denotes.exists_terms hterms
    refine ⟨.fn us w, .fn h.type hlen (fun k p q hp hq => (hus k p q hp hq).1) hw, .fn ?_ hsolid⟩
    intro q hq
    obtain ⟨k, hk, rfl⟩ := List.mem_iff_getElem.1 hq
    exact (hus k _ _ (List.getElem?_eq_getElem (hlen ▸ hk)) (List.getElem?_eq_getElem hk)).2

end Module

end UnitCheck.Code
