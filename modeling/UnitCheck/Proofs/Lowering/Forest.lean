import UnitCheck.Proofs.Lowering.Order
import UnitCheck.Proofs.Lowering.Regular
import UnitCheck.Proofs.Lowering.Slots

/-!
# Lowered code is a forest

Every line, value and block of a lowered unit has exactly one owner (`Module.Forest`). That is what
its fragment says of the whole unit (`Owned`), where nothing is open but its own lines.
-/

namespace UnitCheck.Code

namespace Module

variable (m : Module)

def itemList : List Item := m.itemOrder.filterMap m.item?

/-- All that lists of lines hold: those at the top of the unit and those of blocks. -/
def lineSlots : List LineId := m.globals ++ m.blocks.toList.flatMap Block.lines

def valueSlots : List ValueId :=
  m.lines.toList.flatMap Line.operands ++ m.blocks.toList.map Block.tail ++
    m.values.toList.flatMap Value.slots

def blockSlots : List BlockId :=
  m.itemList.flatMap Item.bodies ++ m.values.toList.flatMap Value.blocks

/-- Every line, value and block is part of one thing only, and no value is part of itself, however
deep: what a value is computed from has smaller numbers. -/
structure Forest : Prop where
  lines : OwnedOnce m.lineSlots m.counters.lines
  values : OwnedOnce m.valueSlots m.counters.values
  blocks : OwnedOnce m.blockSlots m.counters.blocks
  descends : ∀ v w, Relation.TransGen (fun v w => w ∈ m.operands v) v w → w.index < v.index

end Module

end UnitCheck.Code

namespace UnitCheck.Lowering

open Code List Syntax

section Whole

variable {tree : Tree} {r : Resolution.Resolved} {s : State}

theorem Front.reserved (h : Front tree r s) : s.module.blocks[0]? = some ⟨[], 0⟩ ∧
    s.module.lines[0]? = some (.unknown ⟨0, .inl rfl⟩) ∧ s.module.values[0]? = some .poison :=
  ⟨h.ran.blocks nofun rfl, h.ran.grows.lines rfl, h.ran.grows.values rfl⟩

/-- If no declaration has two items, all items can be found. -/
theorem itemList_perm {m : Module} (hdense : m.Dense) (hnodup : m.itemDecls.Nodup) :
    m.itemList.Perm (m.items.toList.map Prod.snd) := by
  have horder : m.itemOrder.Perm m.itemDecls :=
    (perm_ext_iff_of_nodup hdense.itemOrder hnodup).2 hdense.mem_itemOrder
  have hitems : m.itemDecls.filterMap m.item? = m.items.toList.map Prod.snd := by
    rw [Module.itemDecls, filterMap_map, ← filterMap_eq_map]
    exact filterMap_congr fun x hx => item?_of_mem hnodup hx
  rw [← hitems]
  exact horder.filterMap _

theorem Front.forest (h : Front tree r s) (hwf : Resolution.WellFormed tree)
    (hcomplete : areCompleteStmts tree.program = true) : s.module.Forest := by
  obtain ⟨hblocks, hlines, hvalues⟩ := h.reserved
  replace hblocks := slice_whole h.ready.dense.blocks hblocks
  replace hlines := slice_whole h.ready.dense.lines hlines
  replace hvalues := slice_whole h.ready.dense.values hvalues
  have hfragment := h.fragment hwf hcomplete False.elim
  have hitems := itemList_perm h.ready.dense (hfragment.nodup_itemDecls (h.nodup_numbers hwf))
  have hregular : s.module.Regular False := h.regular hwf hcomplete False.elim
  refine ⟨?_, ?_, ?_, ?_⟩
  · refine SameNodes.ownedOnce fun i hi => ?_
    have hcount : _ = (idsIn 0 s.module.counters.lines).count i := hfragment.ownLines i hi
    rw [← hcount, Module.lineSlots, ← hblocks, count_append, Nat.add_comm, ← count_append]
    rfl
  · refine SameNodes.ownedOnce fun i hi => ?_
    have hcount : _ = (idsIn 0 s.module.counters.values).count i := hfragment.ownValues i hi
    -- the reserved block has no value at its end
    have htails (bs : List Block) : ((⟨[], 0⟩ :: bs).map Block.tail).count i =
        (bs.map Block.tail).count i := by
      rw [map_cons, ← singleton_append, count_append, count_zero hi, Nat.zero_add]
    rw [← hcount, Module.valueSlots, ← hblocks, ← hlines, ← hvalues, Owned.count_values,
      count_append, count_append, htails]
    rfl
  · refine SameNodes.ownedOnce fun i hi => ?_
    have hcount : _ = (idsIn 0 s.module.counters.blocks).count i := hfragment.ownBlocks i hi
    rw [← hcount, Module.blockSlots, ← hvalues, Owned.count_blocks, count_append,
      (hitems.flatMap_right _).count_eq, flatMap_map, itemsIn_whole]
    rfl
  · intro v w hvw
    induction hvw with
    | single hw => exact hregular.backward _ _ hw
    | tail _ hw ih => exact (hregular.backward _ _ hw).trans ih

theorem Front.within (h : Front tree r s) (hwf : Resolution.WellFormed tree) (hbare : tree.IsBare) :
    Context.Within ⟨r.tree, r.table.decls⟩ fun d => d.isValid = true →
      (r.table.decls.get? d).isSome = true := by
  obtain ⟨t, hout, rfl⟩ := exists_outcome hwf h.resolved
  refine ⟨nofun, fun {x d} hx hd => hout.decl_isSome hbare hx ?_, fun {p ds} hp d hd =>
    hout.note_isSome hbare (p := p) ?_ hd⟩
  · rw [← hd]
    cases x <;> rfl
  · rw [← hp]
    cases p <;> rfl

end Whole

/-- **A lowered unit is a forest.** On every complete and well-formed tree both passes give a
result, and in the module the tables of nodes and of spans have one entry for each node that was
counted and a reserved one; every line, value and block has exactly one owner; whatever a value is
computed from has a smaller number; and every identifier in the module names an entry of its table.
If nothing had been written into the tree before, this holds of declarations as well. -/
theorem lowered_is_forest (tree : Tree) (hwf : Resolution.WellFormed tree)
    (hcomplete : areCompleteStmts tree.program = true) :
    ∃ r out, Resolution.resolve tree = .ok r ∧ lower r.tree r.table.decls = .ok out ∧
      out.module.Dense ∧ out.module.Forest ∧ out.module.EveryId (out.module.Has fun _ => True) ∧
      (tree.IsBare → out.module.EveryId (out.module.Has fun d => d.isValid = true →
        (r.table.decls.get? d).isSome = true)) := by
  obtain ⟨r, s, hfront⟩ := exists_front hwf hcomplete
  refine ⟨r, _, hfront.resolved, hfront.lowered, hfront.ready.dense,
    hfront.forest hwf hcomplete, ?_, fun hbare => ?_⟩
  · exact (hfront.inRange hwf (Context.within_all _)).ids
  · exact (hfront.inRange hwf (hfront.within hwf hbare)).ids

/-- The two sums of calls become a forest, and every declaration in it is in the table. -/
theorem lowered_is_forest_sums : sums.IsBare ∧
    ∃ r out, Resolution.resolve sums = .ok r ∧ lower r.tree r.table.decls = .ok out ∧
      out.module.Dense ∧ out.module.Forest ∧ out.module.EveryId (out.module.Has fun d =>
        d.isValid = true → (r.table.decls.get? d).isSome = true) := by
  have hbare : sums.IsBare := by constructor <;> decide
  obtain ⟨r, out, hr, hout, hdense, hforest, -, hdecls⟩ :=
    lowered_is_forest sums wellFormed_sums complete_sums
  exact ⟨hbare, r, out, hr, hout, hdense, hforest, hdecls hbare⟩

end UnitCheck.Lowering
