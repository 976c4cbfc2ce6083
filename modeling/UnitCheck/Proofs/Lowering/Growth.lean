import UnitCheck.Lowering.Program
import UnitCheck.Proofs.Scope.Table
import UnitCheck.Proofs.Ty.Denotes

/-!
# How lowering grows a module

Lowering only ever appends: values, lines and slots stay as they were made, and of the blocks only
the one that is being filled changes. `Ran s s' L` says this of a step from `s` to `s'` that
appended the lines `L`.

What a step made is described in terms of a later state, in which it is still there: `Later s s' t`.
So descriptions of steps that follow each other are descriptions in one and the same state, and
nothing has to be carried from state to state (`Builds.bind`).
-/

namespace UnitCheck

open List

open Run (Gives)

/-- Whatever is in the first array is at the same place in the second. -/
def Kept {α : Type} (a b : Array α) : Prop := ∀ ⦃i : Nat⦄ ⦃x : α⦄, a[i]? = some x → b[i]? = some x

namespace Kept

variable {α : Type} {a b c : Array α}

theorem refl (a : Array α) : Kept a a := fun _ _ h => h

theorem trans (h : Kept a b) (h' : Kept b c) : Kept a c := fun _ _ hx => h' (h hx)

theorem push (a : Array α) (x : α) : Kept a (a.push x) := by
  intro i y hy
  have hi : i < a.size := (Array.getElem?_eq_some_iff.1 hy).1
  rw [Array.getElem?_push_lt hi]
  exact (Array.getElem?_eq_getElem hi).symm.trans hy

theorem size_le (h : Kept a b) : a.size ≤ b.size := by
  by_contra hlt
  have hlast := h (Array.getElem?_eq_getElem (show b.size < a.size by omega))
  rw [Array.getElem?_eq_none .refl] at hlast
  cases hlast

end Kept

namespace Code.Module

def itemDecls (m : Module) : List DeclId := m.items.toList.map Prod.fst

variable {m : Module}

theorem isSome_item?_iff {d : DeclId} : (m.item? d).isSome = true ↔ d ∈ m.itemDecls := by
  rw [← not_iff_not, Bool.not_eq_true, Option.isSome_eq_false_iff, Option.isNone_iff_eq_none, item?,
    lookup_eq_none_iff, itemDecls, mem_map]
  simp only [mem_reverse, bne_iff_ne, not_exists, not_and]
  exact forall₂_congr fun x _ => ne_comm

/-- The tables have one entry for each node that was made, and a reserved one. The declarations with
an item are listed once each. -/
structure Dense (m : Module) : Prop where
  blocks : m.blocks.size = m.counters.blocks + 1
  blockSpans : m.blockSpans.size = m.counters.blocks + 1
  lines : m.lines.size = m.counters.lines + 1
  lineSpans : m.lineSpans.size = m.counters.lines + 1
  values : m.values.size = m.counters.values + 1
  valueSpans : m.valueSpans.size = m.counters.values + 1
  locals : m.locals.size = m.counters.locals + 1
  localSpans : m.localSpans.size = m.counters.locals + 1
  itemOrder : m.itemOrder.Nodup
  mem_itemOrder : ∀ d, d ∈ m.itemOrder ↔ d ∈ m.itemDecls

/-- What is never changed once it was made is still there. -/
structure Grows (m m' : Module) : Prop where
  blockSpans : Kept m.blockSpans m'.blockSpans
  lines : Kept m.lines m'.lines
  lineSpans : Kept m.lineSpans m'.lineSpans
  values : Kept m.values m'.values
  valueSpans : Kept m.valueSpans m'.valueSpans
  locals : Kept m.locals m'.locals
  localSpans : Kept m.localSpans m'.localSpans
  lineMarks : ∀ ⦃i : LineId⦄, i.index < m.lines.size →
    marksOf m'.lineMarks i = marksOf m.lineMarks i
  types : m.types.Extends m'.types

theorem Grows.refl (m : Module) : m.Grows m :=
  ⟨.refl _, .refl _, .refl _, .refl _, .refl _, .refl _, .refl _, fun _ _ => rfl, .refl _⟩

theorem Grows.trans {m' m'' : Module} (h : m.Grows m') (h' : m'.Grows m'') : m.Grows m'' where
  blockSpans := h.blockSpans.trans h'.blockSpans
  lines := h.lines.trans h'.lines
  lineSpans := h.lineSpans.trans h'.lineSpans
  values := h.values.trans h'.values
  valueSpans := h.valueSpans.trans h'.valueSpans
  locals := h.locals.trans h'.locals
  localSpans := h.localSpans.trans h'.localSpans
  lineMarks _ hi := (h'.lineMarks (Nat.lt_of_lt_of_le hi h.lines.size_le)).trans (h.lineMarks hi)
  types := h.types.trans h'.types

section

variable {α : Type} {a : Array α} {n : Nat} (h : m.Dense) (span : Span)

theorem size_push_of_size (h : a.size = n) (x : α) : (a.push x).size = n + 1 := by
  rw [Array.size_push, h]

include h

theorem Dense.addBlock : (m.addBlock span).1.Dense :=
  { h with blocks := size_push_of_size h.blocks _,
           blockSpans := size_push_of_size h.blockSpans span }

theorem Dense.addLine (x : Line) : (m.addLine x span).1.Dense :=
  { h with lines := size_push_of_size h.lines x, lineSpans := size_push_of_size h.lineSpans span }

theorem Dense.addValue (x : Value) : (m.addValue x span).1.Dense :=
  { h with values := size_push_of_size h.values x,
           valueSpans := size_push_of_size h.valueSpans span }

theorem Dense.addLocal (x : Local) : (m.addLocal x span).1.Dense :=
  { h with locals := size_push_of_size h.locals x,
           localSpans := size_push_of_size h.localSpans span }

end

theorem block?_eq_some_iff {b : BlockId} {x : Block} :
    m.block? b = some x ↔ b.index ≠ 0 ∧ m.blocks[b.index]? = some x := by
  unfold block? Id.isValid
  by_cases h : b.index = 0 <;> simp [h]

end Code.Module

namespace Lowering

open Code

/-! ## Positions -/

/-- How much was made of each kind. -/
structure Pos where
  blocks : Nat
  lines : Nat
  values : Nat
  locals : Nat
  items : Nat
deriving DecidableEq

namespace Pos

/-- The next node of each kind, and the position behind it. -/
def block (p : Pos) : BlockId := ⟨p.blocks + 1⟩
def addBlock (p : Pos) : Pos := { p with blocks := p.blocks + 1 }
def line (p : Pos) : LineId := ⟨p.lines + 1⟩
def addLine (p : Pos) : Pos := { p with lines := p.lines + 1 }
def value (p : Pos) : ValueId := ⟨p.values + 1⟩
def addValue (p : Pos) : Pos := { p with values := p.values + 1 }
def slot (p : Pos) : LocalId := ⟨p.locals + 1⟩
def addLocal (p : Pos) : Pos := { p with locals := p.locals + 1 }
def addItem (p : Pos) : Pos := { p with items := p.items + 1 }

structure Le (p q : Pos) : Prop where
  blocks : p.blocks ≤ q.blocks
  lines : p.lines ≤ q.lines
  values : p.values ≤ q.values
  locals : p.locals ≤ q.locals
  items : p.items ≤ q.items

end Pos

/-- How much a state has made. -/
def State.pos (s : State) : Pos :=
  ⟨s.module.counters.blocks, s.module.counters.lines, s.module.counters.values,
    s.module.counters.locals, s.module.items.size⟩

/-- What is being filled: a block, or the lines at the top of the unit. -/
def State.current? (s : State) : Option Block :=
  match s.body with
  | none => some ⟨s.module.globals, 0⟩
  | some b => s.module.block? b

/-! ## States -/

/-- A slot that was made for a declaration. -/
def State.HasSlot (s : State) (l : LocalId) (d : DeclId) : Prop :=
  l.isValid = true ∧ ∃ x, s.module.locals[l.index]? = some x ∧ x.decl = d

/-- What holds of the state of lowering all the time. -/
structure Ready (s : State) : Prop where
  dense : s.module.Dense
  types : s.module.types.WellFormed
  current : ∃ x, s.current? = some x
  declSlots : ∀ x ∈ s.declSlots, s.HasSlot x.2 x.1
  lineMarks : ∀ x ∈ s.module.lineMarks, x.1.index < s.module.lines.size

variable {s s' : State} {α : Type} {a : Array α} {n : Nat}

/-- The block that is being filled is among those that were made. -/
theorem Ready.body_le (h : Ready s) {b : BlockId} (hb : s.body = some b) :
    b.index ≠ 0 ∧ b.index ≤ s.pos.blocks := by
  obtain ⟨x, hx⟩ := h.current
  rw [State.current?, hb] at hx
  obtain ⟨h0, hlook⟩ := Module.block?_eq_some_iff.1 hx
  have hlt := (Array.getElem?_eq_some_iff.1 hlook).1
  rw [h.dense.blocks] at hlt
  exact ⟨h0, by have : s.pos.blocks = s.module.counters.blocks := rfl; omega⟩

/-- A step of lowering that appended some lines to what is being filled. -/
structure Ran (s s' : State) (lines : List LineId) : Prop where
  grows : s.module.Grows s'.module
  blocks : ∀ ⦃i : Nat⦄ ⦃x : Block⦄, s.body ≠ some ⟨i⟩ → s.module.blocks[i]? = some x →
    s'.module.blocks[i]? = some x
  items : Kept s.module.items s'.module.items
  faults : s.faults.toList <+: s'.faults.toList
  body : s'.body = s.body
  current : ∀ ⦃x : Block⦄, s.current? = some x → s'.current? = some ⟨x.lines ++ lines, x.tail⟩
  globals : s.body ≠ none → s'.module.globals = s.module.globals

/-- A state in which everything is still there that was made between two states. -/
structure Later (s s' t : State) : Prop where
  grows : s'.module.Grows t.module
  blocks : ∀ ⦃i : Nat⦄ ⦃x : Block⦄, s.pos.blocks < i → s'.module.blocks[i]? = some x →
    t.module.blocks[i]? = some x
  items : ∀ ⦃i : Nat⦄ ⦃x : DeclId × Item⦄, s.pos.items ≤ i → s'.module.items[i]? = some x →
    t.module.items[i]? = some x
  faults : s'.faults.toList <+: t.faults.toList

theorem Later.now (s s' : State) : Later s s' s' :=
  ⟨.refl _, fun _ _ _ h => h, fun _ _ _ h => h, prefix_refl _⟩

namespace Ran

variable {s s1 s2 t : State} {L L1 L2 : List LineId}

theorem refl (s : State) : Ran s s [] where
  grows := .refl _
  blocks := fun _ _ _ h => h
  items := .refl _
  faults := prefix_refl _
  body := rfl
  current := fun x h => by rw [append_nil]; exact h
  globals := fun _ => rfl

/-- Lines are appended one behind the other. -/
theorem trans (h : Ran s s1 L1) (h' : Ran s1 s2 L2) : Ran s s2 (L1 ++ L2) where
  grows := h.grows.trans h'.grows
  blocks := fun i x hi hx => h'.blocks (by rw [h.body]; exact hi) (h.blocks hi hx)
  items := h.items.trans h'.items
  faults := h.faults.trans h'.faults
  body := h'.body.trans h.body
  current := fun x hx => by
    rw [← append_assoc]
    exact h'.current (h.current hx)
  globals := fun hb => (h'.globals (by rw [h.body]; exact hb)).trans (h.globals hb)

/-- A step takes nothing back, so positions only grow. -/
theorem pos_le (h : Ran s s1 L) (hs : Ready s) (hs1 : Ready s1) : s.pos.Le s1.pos := by
  have hb := h.grows.blockSpans.size_le
  have hl := h.grows.lines.size_le
  have hv := h.grows.values.size_le
  have hs' := h.grows.locals.size_le
  rw [hs.dense.blockSpans, hs1.dense.blockSpans] at hb
  rw [hs.dense.lines, hs1.dense.lines] at hl
  rw [hs.dense.values, hs1.dense.values] at hv
  rw [hs.dense.locals, hs1.dense.locals] at hs'
  exact ⟨Nat.le_of_succ_le_succ hb, Nat.le_of_succ_le_succ hl, Nat.le_of_succ_le_succ hv,
    Nat.le_of_succ_le_succ hs', h.items.size_le⟩

/-- What the first of two steps made is still there after both: the second step changes only the
block that was already open before the first. -/
theorem later_left (h : Ran s s1 L1) (h' : Ran s1 s2 L2) (hs : Ready s) (ht : Later s s2 t) :
    Later s s1 t where
  grows := h'.grows.trans ht.grows
  blocks := fun i x hi hx => by
    refine ht.blocks hi (h'.blocks (fun hb => ?_) hx)
    rw [h.body] at hb
    exact absurd (hs.body_le hb).2 (Nat.not_le.2 hi)
  items := fun i x hi hx => ht.items hi (h'.items hx)
  faults := h'.faults.trans ht.faults

/-- The second step starts from a later position, so it made less. -/
theorem later_right (h : Ran s s1 L1) (hs : Ready s) (hs1 : Ready s1) (ht : Later s s2 t) :
    Later s1 s2 t where
  grows := ht.grows
  blocks := fun _ _ hi hx => ht.blocks (Nat.lt_of_le_of_lt (h.pos_le hs hs1).blocks hi) hx
  items := fun _ _ hi hx => ht.items (Nat.le_trans (h.pos_le hs hs1).items hi) hx
  faults := ht.faults

end Ran

/-! ## Steps and what they make -/

/-- What a step makes, in terms of a later state: positions before and after it, the lines that it
appended and its outcome. -/
abbrev Makes (α : Type) := State → Pos → Pos → List LineId → α → Prop

/-- A step has left a state that is ready, and made what is said. -/
def After {α : Type} (R : Makes α) (s : State) (x : α) (s' : State) : Prop :=
  Ready s' ∧ ∃ L, Ran s s' L ∧ ∀ t, Later s s' t → R t s.pos s'.pos L x

/-- A step does not abort, and makes what is said. -/
def Builds {α : Type} (a : Lower α) (R : Makes α) : Prop := ∀ s, Ready s → Gives a s (After R s)

/-- What two steps make that follow each other. -/
def Makes.andThen {α β : Type} (R : Makes α) (S : α → Makes β) : Makes β := fun t p q L y =>
  ∃ x p1 L1 L2, R t p p1 L1 x ∧ S x t p1 q L2 y ∧ L = L1 ++ L2

section Sequences

variable {α β : Type} {a : Lower α} {f : α → Lower β} {R R' : Makes α} {S : α → Makes β}

variable {s s' : State} {x : α}

theorem After.mono (h : After R s x s')
    (hR : ∀ t p q L x, R t p q L x → R' t p q L x) : After R' s x s' := by
  obtain ⟨hs', L, hran, hx⟩ := h
  exact ⟨hs', L, hran, fun t ht => hR _ _ _ _ _ (hx t ht)⟩

/-- The names of slots play no role, and neither does the outcome if nothing is said about it. -/
theorem After.withSlots {y : β} {Q : Makes β} (h : After R s x s')
    (hR : ∀ t p q L, R t p q L x → Q t p q L y) (slots : List (List (NameId × LocalId))) :
    After Q s y { s' with slots } := by
  obtain ⟨hs', L, hran, hx⟩ := h
  refine ⟨{ hs' with current := hs'.current }, L, ?_, fun t ht => hR _ _ _ _ (hx t ?_)⟩
  · exact { hran with }
  · exact { ht with }

/-- What was there before the step is there later. -/
theorem After.with_grows (h : After R s x s') :
    After (fun t p q L x => s.module.Grows t.module ∧ R t p q L x) s x s' := by
  obtain ⟨hs', L, hran, hx⟩ := h
  exact ⟨hs', L, hran, fun t ht => ⟨hran.grows.trans ht.grows, hx t ht⟩⟩

/-- The second step may use what the first one made. -/
theorem gives_andThen (hs : Ready s) (h : Gives a s (After R s))
    (hf : ∀ x s1, Ready s1 → s.module.Grows s1.module → (∃ p L, R s1 p s1.pos L x) →
      Gives (f x) s1 (After (S x) s1)) : Gives (a >>= f) s (After (R.andThen S) s) := by
  refine h.bind fun x s1 ⟨hs1, L1, hran, hx⟩ => ?_
  refine (hf x s1 hs1 hran.grows ⟨_, _, hx s1 (.now _ _)⟩).mono fun y s2 ⟨hs2, L2, hran', hy⟩ => ?_
  refine ⟨hs2, L1 ++ L2, hran.trans hran', fun t ht => ?_⟩
  exact ⟨x, s1.pos, L1, L2, hx t (hran.later_left hran' hs ht),
    hy t (hran.later_right hs hs1 ht), rfl⟩

namespace Builds

theorem mono (h : Builds a R) (hR : ∀ t p q L x, R t p q L x → R' t p q L x) : Builds a R' :=
  fun s hs => (h s hs).mono fun _ _ hx => hx.mono hR

theorem pure_of {x : α} (h : ∀ t p, R t p p [] x) : Builds (Pure.pure x) R :=
  fun s hs => Gives.pure ⟨hs, [], .refl s, fun t _ => h t s.pos⟩

theorem pure (x : α) : Builds (Pure.pure x) fun _ p q L y => q = p ∧ L = [] ∧ y = x :=
  .pure_of fun _ _ => ⟨rfl, rfl, rfl⟩

theorem bind_of (h : Builds a R)
    (hf : ∀ x s, Ready s → (∃ p L, R s p s.pos L x) → Gives (f x) s (After (S x) s)) :
    Builds (a >>= f) (R.andThen S) :=
  fun s hs => gives_andThen hs (h s hs) fun x s1 hs1 _ => hf x s1 hs1

/-- Steps that do not abort follow each other, and what they make adds up. -/
theorem bind (h : Builds a R) (hf : ∀ x, Builds (f x) (S x)) : Builds (a >>= f) (R.andThen S) :=
  h.bind_of fun x s hs _ => hf x s hs

theorem thenPure (h : Builds a R) (g : α → β) :
    Builds (do return g (← a)) fun t p q L y => ∃ x, R t p q L x ∧ y = g x := by
  refine (h.bind fun x => .pure (g x)).mono ?_
  rintro t p q L y ⟨x, _, _, _, hx, ⟨rfl, rfl, rfl⟩, rfl⟩
  rw [append_nil]
  exact ⟨x, hx, rfl⟩

/-- A step that makes nothing can be left out. -/
theorem skip {R : Makes β} (h : Builds a fun _ p q L _ => q = p ∧ L = [])
    (hf : ∀ x, Builds (f x) R) : Builds (a >>= f) R := by
  refine (h.bind hf).mono ?_
  rintro t p q L y ⟨_, _, _, _, ⟨rfl, rfl⟩, hy, rfl⟩
  exact hy

theorem get_bind {f : State → Lower β} {R : Makes β}
    (h : ∀ s, Ready s → Gives (f s) s (After R s)) : Builds (get >>= f) R :=
  fun s hs => .step rfl (h s hs)

theorem discard (h : Builds a R) : Builds (discard a) fun t p q L _ => ∃ x, R t p q L x := by
  intro s hs
  obtain ⟨x, s', hrun, hs', L, hran, hx⟩ := h s hs
  refine ⟨(), s', ?_, hs', L, hran, fun t ht => ⟨x, hx t ht⟩⟩
  show EStateM.map _ a s = _
  rw [EStateM.map, hrun]

end Builds

end Sequences

/-! ## Steps that append nothing to what is filled -/

/-- A step that leaves blocks, items and the list that is being filled alone. -/
structure Quiet (s s' : State) : Prop where
  grows : s.module.Grows s'.module
  dense : s'.module.Dense
  types : s'.module.types.WellFormed
  blocks : s'.module.blocks = s.module.blocks
  items : s'.module.items = s.module.items
  globals : s'.module.globals = s.module.globals
  faults : s.faults.toList <+: s'.faults.toList
  body : s'.body = s.body
  declSlots : s'.declSlots = s.declSlots
  lineMarks : s'.module.lineMarks = s.module.lineMarks

theorem State.HasSlot.mono (h : s.module.Grows s'.module) {l : LocalId} {d : DeclId}
    (hl : s.HasSlot l d) : s'.HasSlot l d := by
  obtain ⟨hvalid, x, hx, hd⟩ := hl
  exact ⟨hvalid, x, h.locals hx, hd⟩

namespace Quiet

variable {s s' : State}

theorem refl (hs : Ready s) : Quiet s s :=
  ⟨.refl _, hs.dense, hs.types, rfl, rfl, rfl, prefix_refl _, rfl, rfl, rfl⟩

theorem trans {s'' : State} (h : Quiet s s') (h' : Quiet s' s'') : Quiet s s'' where
  grows := h.grows.trans h'.grows
  dense := h'.dense
  types := h'.types
  blocks := h'.blocks.trans h.blocks
  items := h'.items.trans h.items
  globals := h'.globals.trans h.globals
  faults := h.faults.trans h'.faults
  body := h'.body.trans h.body
  declSlots := h'.declSlots.trans h.declSlots
  lineMarks := h'.lineMarks.trans h.lineMarks

theorem current?_eq (h : Quiet s s') : s'.current? = s.current? := by
  unfold State.current? Module.block?
  rw [h.body, h.globals, h.blocks]

theorem ready (h : Quiet s s') (hs : Ready s) : Ready s' where
  dense := h.dense
  types := h.types
  current := by rw [h.current?_eq]; exact hs.current
  declSlots := by
    rw [h.declSlots]
    exact fun x hx => (hs.declSlots x hx).mono h.grows
  lineMarks := by
    rw [h.lineMarks]
    exact fun x hx => Nat.lt_of_lt_of_le (hs.lineMarks x hx) h.grows.lines.size_le

theorem ran (h : Quiet s s') : Ran s s' [] where
  grows := h.grows
  blocks := fun _ _ _ hx => by rw [h.blocks]; exact hx
  items := by rw [h.items]; exact .refl _
  faults := h.faults
  body := h.body
  current := fun x hx => by rw [h.current?_eq, append_nil]; exact hx
  globals := fun _ => h.globals

end Quiet

/-- A quiet step appends no lines. -/
theorem Builds.of_quiet {a : Lower α} {R : Makes α}
    (h : ∀ s, Ready s → ∃ x s', a s = .ok x s' ∧ Quiet s s' ∧
      ∀ t, Later s s' t → R t s.pos s'.pos [] x) : Builds a R := by
  intro s hs
  obtain ⟨x, s', hrun, hquiet, hx⟩ := h s hs
  exact ⟨x, s', hrun, hquiet.ready hs, [], hquiet.ran, hx⟩

theorem Quiet.of_module (hs : Ready s) (hmodule : s'.module = s.module)
    (hbody : s'.body = s.body) (hdecls : s'.declSlots = s.declSlots)
    (hfaults : s.faults.toList <+: s'.faults.toList) : Quiet s s' where
  grows := by rw [hmodule]; exact .refl _
  dense := by rw [hmodule]; exact hs.dense
  types := by rw [hmodule]; exact hs.types
  blocks := by rw [hmodule]
  items := by rw [hmodule]
  globals := by rw [hmodule]
  faults := hfaults
  body := hbody
  declSlots := hdecls
  lineMarks := by rw [hmodule]

/-- A step on names of slots, or on what only counts along. -/
theorem builds_modify (f : State → State) (h : ∀ s, (f s).module = s.module ∧ (f s).body = s.body ∧
    (f s).declSlots = s.declSlots ∧ (f s).faults = s.faults) :
    Builds (modify f) fun _ p q L _ => q = p ∧ L = [] := by
  refine .of_quiet fun s hs => ⟨(), f s, rfl, ?_, fun _ _ => ?_⟩
  all_goals obtain ⟨hmodule, hbody, hdecls, hfaults⟩ := h s
  · exact .of_module hs hmodule hbody hdecls ⟨[], by rw [hfaults, append_nil]⟩
  · exact ⟨by rw [State.pos, State.pos, hmodule], rfl⟩

theorem builds_report (f : Fault) :
    Builds (report f) fun t p q L _ => q = p ∧ L = [] ∧ f ∈ t.faults.toList := by
  refine .of_quiet fun s hs => ⟨(), { s with faults := s.faults.push f }, rfl, ?_, fun t ht => ?_⟩
  · exact .of_module hs rfl rfl rfl (by simp)
  · exact ⟨rfl, rfl, ht.faults.subset (by simp)⟩

theorem Quiet.of_marks (hs : Ready s) (onValues : List (ValueId × Marks))
    (onLocals : List (LocalId × Marks)) :
    Quiet s { s with module := { s.module with valueMarks := onValues, localMarks := onLocals } } :=
  { refl hs with grows := { Module.Grows.refl s.module with }, dense := { hs.dense with } }

theorem builds_markValue (i : ValueId) (x : Marks) :
    Builds (markValue i x) fun _ p q L _ => q = p ∧ L = [] :=
  .of_quiet fun _ hs => ⟨(), _, rfl, .of_marks hs _ _, fun _ _ => ⟨rfl, rfl⟩⟩

theorem builds_markLocal (i : LocalId) (x : Marks) :
    Builds (markLocal i x) fun _ p q L _ => q = p ∧ L = [] :=
  .of_quiet fun _ hs => ⟨(), _, rfl, .of_marks hs _ _, fun _ _ => ⟨rfl, rfl⟩⟩

/-! ### Values, slots and lines -/

/-- The next value is `x`, and stands for the text at `span`. -/
def HasValue (t : State) (p : Pos) (x : Value) (span : Span) : Prop :=
  t.module.values[p.values + 1]? = some x ∧ t.module.valueSpans[p.values + 1]? = some span

/-- The next slot is `x`. -/
def HasLocal (t : State) (p : Pos) (x : Local) (span : Span) : Prop :=
  t.module.locals[p.locals + 1]? = some x ∧ t.module.localSpans[p.locals + 1]? = some span

/-- Whether no program text stands for a line. -/
def State.isMade (t : State) (i : LineId) : Bool :=
  (Module.marksOf t.module.lineMarks i).has .synthetic

/-- The next line is `x`, which is `made` up or not. -/
def HasLine (t : State) (p : Pos) (x : Line) (span : Span) (made : Bool) : Prop :=
  t.module.lines[p.lines + 1]? = some x ∧ t.module.lineSpans[p.lines + 1]? = some span ∧
    t.isMade p.line = made

/-- The next block is `x`. -/
def HasBlock (t : State) (p : Pos) (x : Block) (span : Span) : Prop :=
  t.module.blocks[p.blocks + 1]? = some x ∧ t.module.blockSpans[p.blocks + 1]? = some span

def HasItem (t : State) (p : Pos) (x : DeclId × Item) : Prop := t.module.items[p.items]? = some x

theorem getElem?_push_of_size (h : a.size = n) (x : α) : (a.push x)[n]? = some x := by
  rw [← h, Array.getElem?_push_size]

theorem builds_newValue (x : Value) (span : Span) : Builds (newValue x span) fun t p q L v =>
      q = p.addValue ∧ L = [] ∧ v = p.value ∧ HasValue t p x span := by
  refine .of_quiet fun s hs => ⟨_, _, rfl, ?_, fun t ht => ⟨rfl, rfl, rfl, ?_⟩⟩
  · exact { Quiet.refl hs with
      grows := { Module.Grows.refl s.module with values := .push _ _, valueSpans := .push _ _ }
      dense := hs.dense.addValue span x }
  · exact ⟨ht.grows.values (getElem?_push_of_size hs.dense.values x),
      ht.grows.valueSpans (getElem?_push_of_size hs.dense.valueSpans span)⟩

theorem builds_newLocal (x : Local) (span : Span) : Builds (newLocal x span) fun t p q L l =>
      q = p.addLocal ∧ L = [] ∧ l = p.slot ∧ HasLocal t p x span := by
  refine .of_quiet fun s hs => ⟨_, _, rfl, ?_, fun t ht => ⟨rfl, rfl, rfl, ?_⟩⟩
  · exact { Quiet.refl hs with
      grows := { Module.Grows.refl s.module with locals := .push _ _, localSpans := .push _ _ }
      dense := hs.dense.addLocal span x }
  · exact ⟨ht.grows.locals (getElem?_push_of_size hs.dense.locals x),
      ht.grows.localSpans (getElem?_push_of_size hs.dense.localSpans span)⟩

end Lowering

end UnitCheck
