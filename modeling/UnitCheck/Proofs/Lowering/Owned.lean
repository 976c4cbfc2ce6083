import UnitCheck.Proofs.Lowering.Known
import UnitCheck.Proofs.Lowering.Calls

/-!
# Owners of what was made

Every line, value and block that lowering makes between two positions is a part of one other node,
or is one of those that are still open (`Owned`). Owners are counted part by part: a new node takes
what is open as its parts and is open itself.
-/

namespace UnitCheck.Code

def Value.slots : Value → List ValueId
  | load place | ref place _ => place.operands
  | binary _ left right => [left, right]
  | unary _ v | cast v _ => [v]
  | call callee args _ => callee :: args
  | ifElse chain => (chain.elim [] Chain.branches).map Prod.fst
  | whileLoop cond _ => [cond]
  | forLoop _ iter _ => [iter]
  | block _ | poison | literal _ _ | funcRef _ | stackArray _ _ | broken _ | unknown _ => []

def Item.bodies (x : Item) : List BlockId := (x.func.map Func.body).toList

/-- The identifiers from one to `n` are in a list once each, and nothing else but zero is. -/
def OwnedOnce {k : IdKind} (owned : List (Id k)) (n : Nat) : Prop :=
  (owned.filter Id.isValid).Perm ((List.range' 1 n).map Id.mk)

end UnitCheck.Code

namespace UnitCheck.Lowering

open Code List Syntax Nat

/-! ## Positions -/

namespace Pos.Le

variable {p q r : Pos}

theorem refl (p : Pos) : p.Le p := ⟨le_refl _, le_refl _, le_refl _, le_refl _, le_refl _⟩

theorem trans (h : p.Le q) (h' : q.Le r) : p.Le r :=
  ⟨h.blocks.trans h'.blocks, h.lines.trans h'.lines, h.values.trans h'.values,
    h.locals.trans h'.locals, h.items.trans h'.items⟩

theorem addBlock (h : p.Le q) : p.Le q.addBlock := { h with blocks := le_succ_of_le h.blocks }

theorem addLine (h : p.Le q) : p.Le q.addLine := { h with lines := le_succ_of_le h.lines }

theorem addValue (h : p.Le q) : p.Le q.addValue := { h with values := le_succ_of_le h.values }

theorem addLocal (h : p.Le q) : p.Le q.addLocal := { h with locals := le_succ_of_le h.locals }

theorem addItem (h : p.Le q) : p.Le q.addItem := { h with items := le_succ_of_le h.items }

end Pos.Le

def idsIn {k : IdKind} (a b : Nat) : List (Id k) := (List.range' (a + 1) (b - a)).map Id.mk

def slice {α : Type} (a : Array α) (i j : Nat) : List α := (a.toList.take j).drop i

section

variable {k : IdKind} {a b c : Nat}

theorem mem_idsIn {i : Id k} : i ∈ idsIn a b ↔ a < i.index ∧ i.index ≤ b := by
  constructor
  · intro h
    obtain ⟨n, hn, rfl⟩ := mem_map.1 h
    have := mem_range'_1.1 hn
    show a < n ∧ n ≤ b
    omega
  · intro h
    exact mem_map.2 ⟨i.index, mem_range'_1.2 (by omega), rfl⟩

theorem idsIn_self (a : Nat) : idsIn (k := k) a a = [] := by
  rw [idsIn, Nat.sub_self]
  rfl

theorem idsIn_append (h : a ≤ b) (h' : b ≤ c) : idsIn (k := k) a b ++ idsIn b c = idsIn a c := by
  have hstart : b + 1 = a + 1 + (b - a) := by omega
  have hlength : c - a = (b - a) + (c - b) := by omega
  rw [idsIn, idsIn, idsIn, ← map_append, hstart, hlength, List.range'_append_1]

theorem idsIn_succ (h : a ≤ b) : idsIn (k := k) a (b + 1) = idsIn a b ++ [⟨b + 1⟩] := by
  have hlength : b + 1 - a = b - a + 1 := by omega
  have hlast : a + 1 + (b - a) = b + 1 := by omega
  rw [idsIn, hlength, List.range'_1_concat, map_append, hlast]
  rfl

end

section

variable {α : Type} {a : Array α} {i j l : Nat} {x : α}

theorem slice_self (a : Array α) (i : Nat) : slice a i i = [] :=
  drop_eq_nil_iff.2 (length_take_le ..)

theorem slice_append (h : i ≤ j) (h' : j ≤ l) : slice a i j ++ slice a j l = slice a i l := by
  have htake : a.toList.take j ++ slice a j l = a.toList.take l := by
    rw [slice, ← min_eq_left h', ← take_take, min_eq_left h', take_append_drop]
  have hdrop : (slice a j l).drop (i - (a.toList.take j).length) = slice a j l := by
    rcases le_total j a.toList.length with hle | hle
    · rw [length_take_of_le hle, Nat.sub_eq_zero_of_le h, drop_zero]
    · have hnil : slice a j l = [] := drop_eq_nil_iff.2 ((length_take_le' ..).trans hle)
      rw [hnil, drop_nil]
  have hall := congrArg (List.drop i) htake
  rwa [drop_append, hdrop] at hall

theorem slice_cons (h : a[i]? = some x) (hle : i + 1 ≤ j) :
    slice a i j = x :: slice a (i + 1) j := by
  obtain ⟨hlt, hget⟩ := Array.getElem?_eq_some_iff.1 h
  have hlen : i < (a.toList.take j).length := by
    rw [length_take, Array.length_toList]
    omega
  rw [slice, drop_eq_getElem_cons hlen, getElem_take, Array.getElem_toList, hget]
  rfl

theorem slice_succ (h : a[j]? = some x) (hle : i ≤ j) : slice a i (j + 1) = slice a i j ++ [x] := by
  rw [← slice_append hle (le_succ j), slice_cons h (le_refl _), slice_self]

theorem slice_whole {n : Nat} (hsize : a.size = n + 1) (h : a[0]? = some x) :
    x :: slice a 1 (n + 1) = a.toList := by
  have hle : 0 + 1 ≤ n + 1 := Nat.le_add_left ..
  rw [← slice_cons h hle, slice, drop_zero, ← hsize, ← Array.length_toList, take_length]

end

def itemsIn (m : Module) (p q : Pos) : List (DeclId × Item) := slice m.items p.items q.items

variable {p q : Pos} {k : IdKind}

theorem itemsIn_addItem {t : State} {x : DeclId × Item} (hx : HasItem t p x)
    (hle : p.items + 1 ≤ q.items) : itemsIn t.module p q = x :: itemsIn t.module p.addItem q :=
  slice_cons hx hle

theorem itemsIn_append {m : Module} {r : Pos} (h : p.Le q) (h' : q.Le r) :
    itemsIn m p q ++ itemsIn m q r = itemsIn m p r :=
  slice_append h.items h'.items

/-! ## Owners between two positions -/

/-- Two lists hold the same nodes; zero is none. -/
def SameNodes {k : IdKind} (xs ys : List (Id k)) : Prop :=
  ∀ i : Id k, i.isValid = true → xs.count i = ys.count i

theorem count_zero {i : Id k} (hi : i.isValid = true) : [(0 : Id k)].count i = 0 := by
  refine count_eq_zero.2 fun hmem => ?_
  rw [mem_singleton.1 hmem] at hi
  cases hi

theorem SameNodes.ownedOnce {xs : List (Id k)} {n : Nat}
    (h : SameNodes xs (idsIn 0 n)) : OwnedOnce xs n := by
  refine perm_iff_count.2 fun i => ?_
  by_cases hi : i.isValid = true
  · rw [count_filter hi]
    exact h i hi
  · have hzero : i.index = 0 := by simpa [Id.isValid] using hi
    rw [count_eq_zero.2 fun hmem => hi (mem_filter.1 hmem).2, eq_comm]
    exact count_eq_zero.2 fun hmem => absurd (mem_idsIn.1 hmem).1 (by omega)

section

variable (m : Module)

def blocksIn (a b : Nat) : List Block := slice m.blocks (a + 1) (b + 1)
def linesIn (a b : Nat) : List Line := slice m.lines (a + 1) (b + 1)
def nodesIn (a b : Nat) : List Value := slice m.values (a + 1) (b + 1)

def valueSlotsIn (p q : Pos) : List ValueId :=
  (linesIn m p.lines q.lines).flatMap Line.operands ++
    (blocksIn m p.blocks q.blocks).map Block.tail ++ (nodesIn m p.values q.values).flatMap Value.slots

def blockSlotsIn (p q : Pos) : List BlockId :=
  (itemsIn m p q).flatMap (fun x => x.2.bodies) ++
    (nodesIn m p.values q.values).flatMap Value.blocks

/-- Whatever was made between two positions is part of something that was made there, or is open. -/
structure Owned (p q : Pos) (L : List LineId) (vs : List ValueId) (bs : List BlockId) : Prop where
  le : p.Le q
  ownLines : SameNodes ((blocksIn m p.blocks q.blocks).flatMap Block.lines ++ L)
    (idsIn p.lines q.lines)
  ownValues : SameNodes (valueSlotsIn m p q ++ vs) (idsIn p.values q.values)
  ownBlocks : SameNodes (blockSlotsIn m p q ++ bs) (idsIn p.blocks q.blocks)

end

namespace Owned

variable {m : Module} {t : State} {p q r : Pos} {L L' : List LineId}
  {vs vs' : List ValueId} {bs bs' : List BlockId}

theorem count_values (i : ValueId) :
    (valueSlotsIn m p q ++ vs).count i =
      ((linesIn m p.lines q.lines).flatMap Line.operands).count i +
      ((blocksIn m p.blocks q.blocks).map Block.tail).count i +
      ((nodesIn m p.values q.values).flatMap Value.slots).count i + vs.count i := by
  rw [valueSlotsIn, count_append, count_append, count_append]

theorem count_blocks (i : BlockId) :
    (blockSlotsIn m p q ++ bs).count i = ((itemsIn m p q).flatMap fun x => x.2.bodies).count i +
      ((nodesIn m p.values q.values).flatMap Value.blocks).count i + bs.count i := by
  rw [blockSlotsIn, count_append, count_append]

theorem nil (m : Module) (p : Pos) : Owned m p p [] [] [] := by
  have hblocks : blocksIn m p.blocks p.blocks = [] := slice_self ..
  have hlines : linesIn m p.lines p.lines = [] := slice_self ..
  have hnodes : nodesIn m p.values p.values = [] := slice_self ..
  have hitems : itemsIn m p p = [] := slice_self ..
  refine ⟨.refl p, ?_, ?_, ?_⟩
  · rw [hblocks, idsIn_self]
    exact fun _ _ => rfl
  · rw [valueSlotsIn, hlines, hblocks, hnodes, idsIn_self]
    exact fun _ _ => rfl
  · rw [blockSlotsIn, hitems, hnodes, idsIn_self]
    exact fun _ _ => rfl

theorem absent (m : Module) (p : Pos) : Owned m p p [] [0] [] ∧ Owned m p p [] [] [0] := by
  have h := nil m p
  constructor
  · refine { h with ownValues := fun i hi => ?_ }
    rw [← h.ownValues i hi, count_values, count_values, count_zero hi, count_nil]
  · refine { h with ownBlocks := fun i hi => ?_ }
    rw [← h.ownBlocks i hi, count_blocks, count_blocks, count_zero hi, count_nil]

theorem append (h : Owned m p q L vs bs) (h' : Owned m q r L' vs' bs') :
    Owned m p r (L ++ L') (vs ++ vs') (bs ++ bs') := by
  have hblocks : blocksIn m p.blocks r.blocks =
      blocksIn m p.blocks q.blocks ++ blocksIn m q.blocks r.blocks :=
    (slice_append (succ_le_succ h.le.blocks) (succ_le_succ h'.le.blocks)).symm
  have hlines : linesIn m p.lines r.lines =
    linesIn m p.lines q.lines ++ linesIn m q.lines r.lines :=
    (slice_append (succ_le_succ h.le.lines) (succ_le_succ h'.le.lines)).symm
  have hnodes : nodesIn m p.values r.values =
      nodesIn m p.values q.values ++ nodesIn m q.values r.values :=
    (slice_append (succ_le_succ h.le.values) (succ_le_succ h'.le.values)).symm
  have hitems := itemsIn_append (m := m) h.le h'.le
  -- what is part of something made in both steps is part of something made in one of them
  refine ⟨h.le.trans h'.le, fun i hi => ?_, fun i hi => ?_, fun i hi => ?_⟩
  · have h1 := h.ownLines i hi
    have h2 := h'.ownLines i hi
    rw [hblocks, ← idsIn_append h.le.lines h'.le.lines]
    simp only [flatMap_append, count_append] at h1 h2 ⊢
    omega
  · have h1 := h.ownValues i hi
    have h2 := h'.ownValues i hi
    rw [count_values] at h1 h2 ⊢
    rw [hblocks, hlines, hnodes, ← idsIn_append h.le.values h'.le.values]
    simp only [flatMap_append, map_append, count_append]
    omega
  · have h1 := h.ownBlocks i hi
    have h2 := h'.ownBlocks i hi
    rw [count_blocks] at h1 h2 ⊢
    rw [hnodes, ← hitems, ← idsIn_append h.le.blocks h'.le.blocks]
    simp only [flatMap_append, count_append]
    omega

variable {span : Span}

theorem value (h : Owned t.module p q L vs bs) {x : Value} (hx : HasValue t q x span)
    (hslots : x.slots.Perm vs) (hblocks : x.blocks.Perm bs) :
    Owned t.module p q.addValue L [q.value] [] := by
  have hnodes : nodesIn t.module p.values (q.values + 1) =
    nodesIn t.module p.values q.values ++ [x] :=
    slice_succ hx.1 (succ_le_succ h.le.values)
  refine ⟨h.le.addValue, h.ownLines, fun i hi => ?_, fun i hi => ?_⟩
  · have hcount := h.ownValues i hi
    rw [count_values] at hcount ⊢
    simp only [Pos.addValue, hnodes, idsIn_succ h.le.values, flatMap_append,
      flatMap_singleton, count_append, hslots.count_eq, Pos.value]
    omega
  · have hcount := h.ownBlocks i hi
    rw [count_blocks] at hcount ⊢
    simp only [Pos.addValue, hnodes, flatMap_append, flatMap_singleton, count_append,
      hblocks.count_eq, ← hcount]
    exact (add_assoc ..).symm

theorem line (h : Owned t.module p q L vs []) {x : Line} {made : Bool}
    (hx : HasLine t q x span made)
    (hops : x.operands.Perm vs) : Owned t.module p q.addLine (L ++ [q.line]) [] [] := by
  have hlines : linesIn t.module p.lines (q.lines + 1) = linesIn t.module p.lines q.lines ++ [x] :=
    slice_succ hx.1 (succ_le_succ h.le.lines)
  refine ⟨h.le.addLine, fun i hi => ?_, fun i hi => ?_, h.ownBlocks⟩
  · have hcount := h.ownLines i hi
    simp only [Pos.addLine, idsIn_succ h.le.lines, count_append, ← hcount, Pos.line]
    omega
  · have hcount := h.ownValues i hi
    rw [count_values] at hcount ⊢
    simp only [Pos.addLine, hlines, flatMap_append, flatMap_singleton, count_append,
      hops.count_eq, count_nil]
    omega

/-- A block takes the open lines and the open value that were made behind it, and is open itself. -/
theorem block {v : ValueId} (h : Owned t.module p.addBlock q L [v] [])
    (hx : HasBlock t p ⟨L, v⟩ span) : Owned t.module p q [] [] [p.block] := by
  have hle : p.blocks + 1 ≤ q.blocks := h.le.blocks
  have hblocks : blocksIn t.module p.blocks q.blocks =
      ⟨L, v⟩ :: blocksIn t.module p.addBlock.blocks q.blocks :=
    slice_cons hx.1 (succ_le_succ hle)
  refine ⟨(Pos.Le.refl p).addBlock.trans h.le, fun i hi => ?_, fun i hi => ?_, fun i hi => ?_⟩
  · have hcount := h.ownLines i hi
    rw [hblocks, flatMap_cons, append_nil, count_append, add_comm,
      ← count_append]
    exact hcount
  · have hcount := h.ownValues i hi
    rw [count_values, count_singleton] at hcount
    rw [count_values, hblocks, map_cons, count_cons, count_nil]
    simp only [Pos.addBlock] at hcount ⊢
    omega
  · have hcount := h.ownBlocks i hi
    have hids : idsIn p.blocks q.blocks = [p.block] ++ idsIn p.addBlock.blocks q.blocks := by
      rw [← idsIn_append (le_succ p.blocks) hle, idsIn_succ (le_refl _), idsIn_self]
      rfl
    rw [hids, count_append, count_append, add_comm, ← hcount, append_nil]
    rfl

theorem item (h : Owned t.module p.addItem q [] [] bs) {x : DeclId × Item} (hx : HasItem t p x)
    (hbodies : x.2.bodies.Perm bs) : Owned t.module p q [] [] [] := by
  refine ⟨(Pos.Le.refl p).addItem.trans h.le, h.ownLines, h.ownValues, fun i hi => ?_⟩
  have hcount := h.ownBlocks i hi
  rw [count_blocks] at hcount ⊢
  rw [itemsIn_addItem hx h.le.items, flatMap_cons, count_append, hbodies.count_eq,
    count_nil]
  simp only [Pos.addItem] at hcount ⊢
  omega

theorem slot (h : Owned m p q L vs bs) : Owned m p q.addLocal L vs bs :=
  ⟨h.le.addLocal, h.ownLines, h.ownValues, h.ownBlocks⟩

end Owned

end UnitCheck.Lowering
