import UnitCheck.Proofs.Lowering.Types

/-!
# Filling bodies

Lines go to the block that is being filled, or to the top of the unit. A block that was filled is
closed: nothing changes it afterwards, so a later state has it as it was left.
-/

namespace UnitCheck.Lowering

open Code List Module State
open Run (Gives)

variable {s : State} {α : Type}

variable {a : Array α} {i : Nat} {k : IdKind} {span : Span} {b : BlockId} {R : Makes ValueId}
  {m : Module}

theorem getElem?_modify_self {x : α} (f : α → α)
    (h : a[i]? = some x) : (a.modify i f)[i]? = some (f x) := by
  rw [Array.getElem?_modify, if_pos rfl, h]
  rfl

theorem getElem?_modify_ne {j : Nat} (f : α → α) (h : i ≠ j) : (a.modify i f)[j]? = a[j]? := by
  rw [Array.getElem?_modify, if_neg h]

/-! ## Lines -/

theorem marksOf_mark_self (marks : List (Id k × Marks)) (i : Id k) :
    (marksOf (mark marks i .synthetic) i).has .synthetic = true := by
  have hbit (b : UInt8) : (b ||| 1) &&& 1 = 1 := by
    refine UInt8.toBitVec_inj.1 (BitVec.eq_of_getElem_eq fun i hi => ?_)
    simp +contextual
  rw [mark, marksOf, lookup_cons, BEq.rfl]
  show (_ ||| 1) &&& 1 != 0
  rw [hbit]
  rfl

theorem marksOf_mark_ne (marks : List (Id k × Marks)) {i j : Id k} (x : Marks) (h : j ≠ i) :
    marksOf (mark marks i x) j = marksOf marks j := by
  rw [mark, marksOf, lookup_cons, beq_false_of_ne h]
  rfl

/-- The state with one more line in what is being filled, which is made up or not. -/
def State.emitted (s : State) (x : Line) (span : Span) (made : Bool) : State :=
  let m := (s.module.addLine x span).1
  let m' := match s.body with
    | none => { m with globals := m.globals ++ [s.pos.line] }
    | some b => m.modifyBlock b fun y => { y with lines := y.lines ++ [s.pos.line] }
  { s with module := { m' with
    lineMarks := if made then mark m.lineMarks s.pos.line .synthetic else m.lineMarks } }

theorem emit_eq (hs : Ready s) (x : Line) (span : Span) :
    emit x span s = .ok s.pos.line (s.emitted x span false) := by
  obtain ⟨block, hcurrent⟩ := hs.current
  have hemit : Gives (emit x span) s fun i s' => i = s.pos.line ∧ s' = s.emitted x span false := by
    refine .step rfl (.step rfl ?_)
    unfold current? at hcurrent
    unfold emitted
    cases hbody : s.body with
    | none => exact .step rfl (.pure ⟨rfl, rfl⟩)
    | some b =>
      rw [hbody] at hcurrent
      refine .step rfl ?_
      have hblock : (s.module.addLine x span).1.block? b = some block := hcurrent
      split
      · exact .step rfl (.pure ⟨rfl, rfl⟩)
      next hnone => cases hnone.symm.trans hblock
  obtain ⟨i, s', hrun, rfl, rfl⟩ := hemit
  exact hrun

theorem emitSynthetic_eq (hs : Ready s) (x : Line) (span : Span) :
    emitSynthetic x span s = .ok () (s.emitted x span true) := by
  have hmark : Gives (emitSynthetic x span) s fun _ s' => s' = s.emitted x span true := by
    refine .step (emit_eq hs x span) ⟨(), _, rfl, ?_⟩
    cases s.body <;> rfl
  obtain ⟨_, s', hrun, rfl⟩ := hmark
  exact hrun

section Emitted

variable (x : Line) (span : Span) (made : Bool)

theorem State.emitted_fields (s : State) :
    (s.emitted x span made).module.items = s.module.items ∧
      (s.emitted x span made).module.types = s.module.types ∧
      (s.emitted x span made).pos = s.pos.addLine ∧
      (s.emitted x span made).module.lines = s.module.lines.push x ∧
      (s.emitted x span made).module.lineSpans = s.module.lineSpans.push span ∧
      (s.emitted x span made).module.lineMarks = (if made then
        mark s.module.lineMarks s.pos.line .synthetic else s.module.lineMarks) ∧
      (s.body ≠ none → (s.emitted x span made).module.globals = s.module.globals) := by
  unfold emitted pos
  cases s.body with
  | none => exact ⟨rfl, rfl, rfl, rfl, rfl, rfl, absurd rfl⟩
  | some b => exact ⟨rfl, rfl, rfl, rfl, rfl, rfl, fun _ => rfl⟩

theorem State.lineMarks_emitted (hs : Ready s) : (∀ i : LineId, i.index < s.module.lines.size →
      marksOf (s.emitted x span made).module.lineMarks i = marksOf s.module.lineMarks i) ∧
    (s.emitted x span made).isMade s.pos.line = made ∧
    ∀ y ∈ (s.emitted x span made).module.lineMarks, y.1.index < s.module.lines.size + 1 := by
  have hsize : s.pos.line.index = s.module.lines.size := hs.dense.lines.symm
  have hold (y) (hy : y ∈ s.module.lineMarks) : y.1.index < s.module.lines.size + 1 :=
    Nat.lt_succ_of_lt (hs.lineMarks y hy)
  cases made with
  | true =>
    refine ⟨fun i hi => marksOf_mark_ne _ _ fun heq => ?_, marksOf_mark_self _ _, ?_⟩
    · rw [heq, hsize] at hi
      exact Nat.lt_irrefl _ hi
    · exact forall_mem_cons.2 ⟨hsize ▸ .refl, hold⟩
  | false =>
    have hnone : s.module.lineMarks.lookup s.pos.line = none := by
      refine lookup_eq_none_iff.2 fun y hy => bne_iff_ne.2 fun heq => ?_
      have := hs.lineMarks y hy
      rw [← heq, hsize] at this
      exact Nat.lt_irrefl _ this
    refine ⟨fun _ _ => rfl, ?_, hold⟩
    show (marksOf s.module.lineMarks s.pos.line).has .synthetic = false
    rw [marksOf, hnone]
    rfl

theorem State.grows_emitted (hs : Ready s) : s.module.Grows (s.emitted x span made).module := by
  have hmarks := (lineMarks_emitted x span made hs).1
  unfold emitted at hmarks ⊢
  cases s.body <;> exact
    { Grows.refl s.module with
      lines := .push _ _
      lineSpans := .push _ _
      lineMarks := hmarks }

theorem State.dense_emitted (h : s.module.Dense) : (s.emitted x span made).module.Dense := by
  have hadd := h.addLine span x
  unfold emitted
  cases s.body with
  | none => exact { hadd with }
  | some b => exact { hadd with blocks := Array.size_modify.trans h.blocks }

variable {block : Block}

theorem State.current?_emitted (h : s.current? = some block) :
    (s.emitted x span made).current? = some ⟨block.lines ++ [s.pos.line], block.tail⟩ := by
  unfold current? at h ⊢
  unfold emitted
  cases hbody : s.body with
  | none =>
    rw [hbody] at h
    cases h
    rfl
  | some b =>
    rw [hbody] at h
    obtain ⟨hvalid, hlook⟩ := block?_eq_some_iff.1 h
    exact block?_eq_some_iff.2 ⟨hvalid, getElem?_modify_self _ hlook⟩

theorem State.blocks_emitted {i : Nat} (hi : s.body ≠ some ⟨i⟩)
    (h : s.module.blocks[i]? = some block) :
    (s.emitted x span made).module.blocks[i]? = some block := by
  unfold emitted
  cases hbody : s.body with
  | none => exact h
  | some b =>
    have hne : b.index ≠ i := fun heq => hi (by rw [hbody, ← heq])
    exact (getElem?_modify_ne _ hne).trans h

theorem after_emitted (hs : Ready s) (y : α) :
    After (fun t p q L z => q = p.addLine ∧ L = [p.line] ∧ z = y ∧ HasLine t p x span made) s y
      (s.emitted x span made) := by
  have hgrows := grows_emitted x span made hs
  obtain ⟨block, hcurrent⟩ := hs.current
  obtain ⟨hitems, htypes, hpos, hlines, hspans, -, hglobals⟩ := s.emitted_fields x span made
  obtain ⟨-, hmade, hmarks⟩ := lineMarks_emitted x span made hs
  have hsize : (s.emitted x span made).module.lines.size = s.module.lines.size + 1 := by
    rw [hlines, Array.size_push]
  refine ⟨?_, [s.pos.line], ?_, fun t ht => ⟨hpos, rfl, rfl, ?_, ?_, ?_⟩⟩
  · exact
      { dense := dense_emitted x span made hs.dense
        types := by rw [htypes]; exact hs.types
        current := ⟨_, current?_emitted x span made hcurrent⟩
        declSlots := fun y hy => (hs.declSlots y hy).mono hgrows
        lineMarks := by rw [hsize]; exact hmarks }
  · exact
      { grows := hgrows
        blocks := fun _ _ => blocks_emitted x span made
        items := by rw [hitems]; exact .refl _
        faults := prefix_refl _
        body := rfl
        current := fun _ => current?_emitted x span made
        globals := hglobals }
  · refine ht.grows.lines ?_
    rw [hlines]
    exact getElem?_push_of_size hs.dense.lines x
  · refine ht.grows.lineSpans ?_
    rw [hspans]
    exact getElem?_push_of_size hs.dense.lineSpans span
  · have hlt : s.pos.line.index < (s.emitted x span made).module.lines.size := by
      rw [hsize, hs.dense.lines]
      exact .refl
    rw [← hmade, isMade, isMade, ht.grows.lineMarks hlt]

end Emitted

theorem builds_emit (x : Line) (span : Span) : Builds (emit x span) fun t p q L i =>
      q = p.addLine ∧ L = [p.line] ∧ i = p.line ∧ HasLine t p x span false :=
  fun _ hs => ⟨_, _, emit_eq hs x span, after_emitted x span false hs _⟩

theorem builds_emitSynthetic (x : Line) (span : Span) :
    Builds (emitSynthetic x span) fun t p q L _ =>
      q = p.addLine ∧ L = [p.line] ∧ HasLine t p x span true := fun _ hs =>
  ⟨_, _, emitSynthetic_eq hs x span, (after_emitted x span true hs ()).mono
    fun _ _ _ _ _ ⟨hq, hL, _, hline⟩ => ⟨hq, hL, hline⟩⟩

/-! ## Slots -/

theorem builds_newTemp (word : Text) (type : TypeId) (span : Span) :
    Builds (newTemp word type span) fun t p q L l =>
      q = p.addLocal ∧ L = [] ∧ l = p.slot ∧ ∃ name,
        HasLocal t p ⟨name, 0, type, .mutable⟩ span := by
  refine .get_bind fun s hs => ?_
  have hcount := builds_modify (fun s' => { s' with temps := s.temps + 1 }) fun _ =>
    ⟨rfl, rfl, rfl, rfl⟩
  refine ((hcount.bind fun _ => (builds_newLocal _ span).bind fun l =>
    (builds_markLocal l .synthetic).bind fun _ => .pure l) s hs).mono fun l s' hl => hl.mono ?_
  rintro t p q L l ⟨_, _, _, _, ⟨rfl, rfl⟩, ⟨_, _, _, _, ⟨rfl, rfl, rfl, hlocal⟩,
    ⟨_, _, _, _, ⟨rfl, rfl⟩, ⟨rfl, rfl, rfl⟩, rfl⟩, rfl⟩, rfl⟩
  exact ⟨rfl, rfl, rfl, _, hlocal⟩

/-- A slot is bound to the declaration that it was made for. -/
theorem gives_bindSlot (hs : Ready s) (name : NameId) {d : DeclId} {l : LocalId}
    (hl : s.HasSlot l d) :
    Gives (bindSlot name d l) s (After (fun _ p q L _ => q = p ∧ L = []) s) := by
  refine ⟨(), _, rfl, ?_, [], ?_, fun _ _ => ⟨rfl, rfl⟩⟩
  · refine { hs with declSlots := fun x hx => ?_ }
    split at hx
    · obtain rfl | hx := mem_cons.1 hx
      · exact hl
      · exact hs.declSlots x hx
    · exact hs.declSlots x hx
  · exact { Ran.refl s with }

theorem builds_declare {β : Type} {x : Local} (name : NameId)
    {f : LocalId → Lower β} {S : LocalId → Makes β} (hf : ∀ l, Builds (f l) (S l)) :
    Builds (do
      let l ← newLocal x span
      bindSlot name x.decl l
      f l) fun t p q L y => HasLocal t p x span ∧ S p.slot t p.addLocal q L y := by
  refine ((builds_newLocal x span).bind_of
    (S := fun l => .andThen (fun _ p q L _ => q = p ∧ L = []) fun _ : Unit => S l)
    fun l s hs ⟨p, L, hpos, _, hl, hlocal⟩ => ?_).mono ?_
  · have hslot : s.HasSlot l x.decl := by
      rw [hl]
      exact ⟨rfl, x, hlocal.1, rfl⟩
    exact gives_andThen hs (gives_bindSlot hs name hslot) fun _ s1 hs1 _ _ => hf l s1 hs1
  · rintro t p q L y ⟨_, _, _, _, ⟨rfl, rfl, rfl, hlocal⟩, ⟨_, _, _, _, ⟨rfl, rfl⟩, hy, rfl⟩, rfl⟩
    exact ⟨hlocal, hy⟩

/-! ## Blocks -/

def State.withTail (s : State) (b : BlockId) (v : ValueId) : State :=
  { s with module := s.module.modifyBlock b fun x => { x with tail := v } }

theorem State.withTail_zero {lines : List LineId}
    (h : s.module.block? b = some ⟨lines, 0⟩) : s.withTail b 0 = s := by
  obtain ⟨-, hlook⟩ := block?_eq_some_iff.1 h
  have hblocks : s.module.blocks.modify b.index (fun x => { x with tail := 0 }) =
    s.module.blocks := by
    refine Array.ext_getElem? fun i => ?_
    by_cases hi : b.index = i
    · subst hi
      rw [getElem?_modify_self _ hlook, hlook]
    · exact getElem?_modify_ne _ hi
  unfold withTail modifyBlock
  rw [hblocks]

/-- An action fills a block that has no value yet: it appends lines and then sets the value. -/
def Fills (b : BlockId) (fill : Lower Unit) (R : Makes ValueId) : Prop :=
  ∀ s, Ready s → s.body = some b → (∃ lines, s.current? = some ⟨lines, 0⟩) →
    Gives fill s fun _ s' => ∃ s1 L v, Ready s1 ∧ Ran s s1 L ∧ s' = s1.withTail b v ∧
      ∀ t, Later s s1 t → R t s.pos s1.pos L v

theorem Fills.mono {fill : Lower Unit} {R' : Makes ValueId} (h : Fills b fill R)
    (hR : ∀ t p q L v, R t p q L v → R' t p q L v) : Fills b fill R' := by
  intro s hs hbody hcurrent
  refine (h s hs hbody hcurrent).mono fun _ s' ⟨s1, L, v, hs1, hran, hs', hv⟩ => ?_
  exact ⟨s1, L, v, hs1, hran, hs', fun t ht => hR _ _ _ _ _ (hv t ht)⟩

theorem fills_setTail {value : Lower ValueId}
    (h : Builds value R) : Fills b (do setTail b (← value)) R := by
  intro s hs _ _
  refine (h s hs).bind fun v s1 ⟨hs1, L, hran, hv⟩ => ?_
  exact ⟨(), _, rfl, s1, L, v, hs1, hran, rfl, hv⟩

def State.opened (s : State) (span : Span) : State :=
  { s with
    module := (s.module.addBlock span).1
    body := some s.pos.block
    slots := [] :: s.slots }

theorem State.current?_opened (hs : Ready s) (span : Span) :
    (s.opened span).current? = some ⟨[], 0⟩ :=
  block?_eq_some_iff.2 ⟨Nat.succ_ne_zero _, getElem?_push_of_size hs.dense.blocks _⟩

theorem State.grows_opened (s : State) (span : Span) : s.module.Grows (s.opened span).module :=
  { Grows.refl s.module with blockSpans := .push _ _ }

theorem Ready.opened (hs : Ready s) (span : Span) : Ready (s.opened span) :=
  { hs with
    dense := hs.dense.addBlock span
    current := ⟨_, current?_opened hs span⟩
    declSlots := fun x hx => (hs.declSlots x hx).mono (s.grows_opened span) }

def State.closed (s s1 : State) (v : ValueId) : State :=
  { s1.withTail s.pos.block v with slots := s1.slots.drop 1, body := s.body }

section Closing

variable {s s1 t : State} {span : Span} {L : List LineId} {v : ValueId}

variable {i : Nat} {x : Block}

theorem State.blocks_closed (h : s.pos.blocks + 1 ≠ i) :
    (s.closed s1 v).module.blocks[i]? = s1.module.blocks[i]? :=
  getElem?_modify_ne _ h

theorem block_kept (hs : Ready s) (h : Ran (s.opened span) s1 L)
    (hx : s.module.blocks[i]? = some x) : (s.closed s1 v).module.blocks[i]? = some x := by
  have hlt := (Array.getElem?_eq_some_iff.1 hx).1
  rw [hs.dense.blocks] at hlt
  have hne : s.pos.blocks + 1 ≠ i := Nat.ne_of_gt hlt
  rw [blocks_closed hne]
  refine h.blocks (fun hb => hne ?_) (Kept.push _ _ hx)
  exact congrArg Id.index (Option.some.inj hb)

theorem current?_closed (hs : Ready s) (h : Ran (s.opened span) s1 L)
    (hx : s.current? = some x) : (s.closed s1 v).current? = some x := by
  unfold current? at hx ⊢
  rw [show (s.closed s1 v).body = s.body from rfl]
  cases hbody : s.body with
  | none =>
    rw [hbody] at hx
    have hglobals : s1.module.globals = s.module.globals := h.globals nofun
    cases hx
    exact congrArg (fun g => some (Block.mk g 0)) hglobals
  | some b =>
    rw [hbody] at hx
    obtain ⟨hvalid, hlook⟩ := block?_eq_some_iff.1 hx
    exact block?_eq_some_iff.2 ⟨hvalid, block_kept hs h hlook⟩

theorem ready_closed (hs : Ready s) (hs1 : Ready s1) (h : Ran (s.opened span) s1 L) :
    Ready (s.closed s1 v) := by
  obtain ⟨x, hx⟩ := hs.current
  exact { hs1 with
    dense := { hs1.dense with blocks := Array.size_modify.trans hs1.dense.blocks }
    current := ⟨x, current?_closed hs h hx⟩ }

theorem ran_closed (hs : Ready s) (h : Ran (s.opened span) s1 L) : Ran s (s.closed s1 v) [] where
  grows := (s.grows_opened span).trans { h.grows with }
  blocks := fun _ _ _ => block_kept hs h
  items := h.items
  faults := h.faults
  body := rfl
  current := fun x hx => by
    rw [append_nil]
    exact current?_closed hs h hx
  globals := fun _ => h.globals nofun

theorem later_closed (ht : Later s (s.closed s1 v) t) : Later (s.opened span) s1 t where
  grows :=
    have hsame : s1.module.Grows (s.closed s1 v).module := { Grows.refl s1.module with }
    hsame.trans ht.grows
  blocks := fun i x hi hx => by
    have hi' : s.pos.blocks + 1 < i := hi
    refine ht.blocks (Nat.lt_of_succ_lt hi') ?_
    rw [blocks_closed (Nat.ne_of_lt hi')]
    exact hx
  items := fun _ _ hi hx => ht.items hi hx
  faults := ht.faults

theorem hasBlock_closed (hs : Ready s) (h : Ran (s.opened span) s1 L)
    (ht : Later s (s.closed s1 v) t) : HasBlock t s.pos ⟨L, v⟩ span := by
  constructor
  · have hcurrent := h.current (current?_opened hs span)
    unfold current? at hcurrent
    rw [h.body] at hcurrent
    obtain ⟨-, hlook⟩ := block?_eq_some_iff.1 hcurrent
    refine ht.blocks .refl ?_
    exact getElem?_modify_self _ hlook
  · exact (ht.grows.blockSpans
      (h.grows.blockSpans (getElem?_push_of_size hs.dense.blockSpans span)))

end Closing

theorem builds_inBlock {fill : BlockId → Lower Unit} (h : ∀ b, Fills b (fill b) R) :
    Builds (inBlock span fill) fun t p q L b => L = [] ∧ b = p.block ∧
      ∃ lines tail, HasBlock t p ⟨lines, tail⟩ span ∧ R t p.addBlock q lines tail := by
  intro s hs
  have hfill := h s.pos.block (s.opened span) (hs.opened span) rfl
    ⟨[], current?_opened hs span⟩
  have hfill' : Gives (do
      modify fun s : State => { s with slots := [] :: s.slots }
      let x ← fill s.pos.block
      modify fun s : State => { s with slots := s.slots.drop 1 }
      return x) { s with module := (s.module.addBlock span).1, body := some s.pos.block }
      fun _ s' => ∃ s1 L v, Ready s1 ∧ Ran (s.opened span) s1 L ∧
        s' = { s1.withTail s.pos.block v with slots := s1.slots.drop 1 } ∧
        ∀ t, Later (s.opened span) s1 t → R t (s.opened span).pos s1.pos L v := by
    refine .step rfl (hfill.bind fun x s' ⟨s1, L, v, hs1, hran, hs', hv⟩ => ?_)
    exact .step rfl (.pure ⟨s1, L, v, hs1, hran, by rw [hs']; rfl, hv⟩)
  refine hfill'.bind fun _ s' ⟨s1, L, v, hs1, hran, hs', hv⟩ => .step rfl (.pure ?_)
  have hclosed : ({ s' with body := s.body } : State) = s.closed s1 v := by
    rw [hs']
    rfl
  show After _ s _ ({ s' with body := s.body } : State)
  rw [hclosed]
  refine ⟨ready_closed hs hs1 hran, [], ran_closed hs hran, fun t ht => ⟨rfl, rfl, L, v, ?_, ?_⟩⟩
  · exact hasBlock_closed hs hran ht
  · exact hv t (later_closed ht)

/-! ## Items -/

def State.withItem (s : State) (x : Item) : State :=
  { s with module := (s.module.addItem x).1 }

/-- A declaration with an item is listed when its first item is added. -/
theorem dense_addItem (h : m.Dense) (x : Item) : (m.addItem x).1.Dense := by
  have hdecls : (m.addItem x).1.itemDecls = m.itemDecls ++ [x.decl] := by
    simp [itemDecls, addItem]
  have hknown : x.decl ∈ m.itemOrder ↔ (m.item? x.decl).isSome = true := by
    rw [h.mem_itemOrder, isSome_item?_iff]
  refine { h with itemOrder := ?_, mem_itemOrder := fun d => ?_ }
  · show (if (m.item? x.decl).isSome then m.itemOrder else m.itemOrder ++ [x.decl]).Nodup
    split
    · exact h.itemOrder
    · rename_i hnew
      refine nodup_append.2 ⟨h.itemOrder, by simp, fun a ha b hb => ?_⟩
      rw [mem_singleton.1 hb]
      rintro rfl
      exact hnew (hknown.1 ha)
  · show d ∈ (if (m.item? x.decl).isSome then m.itemOrder else m.itemOrder ++ [x.decl]) ↔ _
    rw [hdecls, mem_append, mem_singleton, ← h.mem_itemOrder]
    split
    · rename_i hold
      exact ⟨.inl, fun hd => hd.elim id fun hd => hd ▸ hknown.2 hold⟩
    · rw [mem_append, mem_singleton]

/-- Completing an item does not change its declaration. -/
theorem dense_modifyItem (h : m.Dense) (k : Nat) (f : Item → Item) : (m.modifyItem k f).Dense := by
  have hdecls : (m.modifyItem k f).itemDecls = m.itemDecls := by
    refine ext_getElem? fun i => ?_
    simp only [itemDecls, modifyItem, List.getElem?_map, Array.getElem?_toList,
      Array.getElem?_modify]
    split
    · rw [Option.map_map]
      rfl
    · rfl
  exact { h with mem_itemOrder := fun d => by rw [hdecls]; exact h.mem_itemOrder d }

theorem Ready.withItem (hs : Ready s) (x : Item) : Ready (s.withItem x) :=
  { hs with dense := dense_addItem hs.dense x }

theorem State.pos_withItem (s : State) (x : Item) : (s.withItem x).pos = s.pos.addItem := by
  simp [withItem, pos, addItem, Pos.addItem]

theorem ran_withItem (s : State) (x : Item) : Ran s (s.withItem x) [] :=
  { Ran.refl s with grows := { Grows.refl s.module with }, items := .push _ _ }

theorem builds_addItem (x : Item) : Builds (onModule (·.addItem x)) fun t p q L i =>
      q = p.addItem ∧ L = [] ∧ i = p.items ∧ HasItem t p (x.decl, x) := by
  intro s hs
  refine ⟨_, s.withItem x, rfl, hs.withItem x, [], ran_withItem s x, fun t ht => ?_⟩
  exact ⟨s.pos_withItem x, rfl, rfl, ht.items .refl (Array.getElem?_push_size ..)⟩

/-- An item that is completed after more was made: what was made in between is still there. -/
theorem After.completed {R : Makes α} {s s1 : State} {x : Item} {y : α}
    (h : After R (s.withItem x) y s1) (f : Item → Item) :
    After (fun t p q L y => HasItem t p (x.decl, f x) ∧ R t p.addItem q L y) s y
      { s1 with module := s1.module.modifyItem s.pos.items f } := by
  obtain ⟨hs1, L, hran, hy⟩ := h
  let s2 : State := { s1 with module := s1.module.modifyItem s.pos.items f }
  have hother : ∀ i, s.pos.items ≠ i → s2.module.items[i]? = s1.module.items[i]? :=
    fun i hi => getElem?_modify_ne _ hi
  have hself : s2.module.items[s.pos.items]? = some (x.decl, f x) :=
    getElem?_modify_self _ (hran.items (Array.getElem?_push_size ..))
  have hsame : s1.module.Grows s2.module := { Grows.refl s1.module with }
  have hpos : s2.pos = s1.pos := by simp [s2, pos, modifyItem]
  have hran' : Ran s s2 L :=
    { hran with
      grows := (ran_withItem s x).grows.trans (hran.grows.trans hsame)
      items := fun i z hz => by
        have hlt := (Array.getElem?_eq_some_iff.1 hz).1
        rw [hother i (Nat.ne_of_gt hlt)]
        exact hran.items (Kept.push _ _ hz) }
  refine ⟨{ hs1 with dense := dense_modifyItem hs1.dense _ f }, L, hran',
    fun t ht => ?_⟩
  refine ⟨ht.items .refl hself, ?_⟩
  rw [hpos, ← s.pos_withItem x]
  refine hy t ⟨hsame.trans ht.grows, fun _ _ hi hz => ht.blocks hi hz,
    fun i z hi hz => ?_, ht.faults⟩
  rw [s.pos_withItem x] at hi
  have hlt : s.pos.items < i := hi
  refine ht.items (Nat.le_of_lt hlt) ?_
  rw [hother i (Nat.ne_of_lt hlt)]
  exact hz

/-- Declarations inside of a body append nothing to it. -/
theorem builds_inGlobals {a : Lower α} {R : Makes α}
    (h : Builds a fun t p q L x => L = [] ∧ R t p q L x) :
    Builds (inGlobals a) fun t p q L x => L = [] ∧ R t p q L x := by
  intro s hs
  have hs0 : Ready { s with body := none } := { hs with current := ⟨_, rfl⟩ }
  refine .step rfl (.step rfl ((h _ hs0).bind fun x s1 ⟨hs1, L, hran, hx⟩ => .step rfl (.pure ?_)))
  have hnil : L = [] := (hx s1 (.now _ _)).1
  subst hnil
  have hglobals := hran.current (x := ⟨s.module.globals, 0⟩) rfl
  unfold current? at hglobals
  rw [hran.body, append_nil] at hglobals
  have hcurrent : ∀ y, s.current? = some y →
      ({ s1 with body := s.body } : State).current? = some y := by
    intro y hy
    unfold current? at hy ⊢
    cases hbody : s.body with
    | none =>
      rw [hbody] at hy
      cases hy
      exact hglobals
    | some b =>
      rw [hbody] at hy
      obtain ⟨hvalid, hlook⟩ := block?_eq_some_iff.1 hy
      exact block?_eq_some_iff.2 ⟨hvalid, hran.blocks nofun hlook⟩
  refine ⟨?_, [], ?_, fun t ht => hx t { ht with }⟩
  · obtain ⟨y, hy⟩ := hs.current
    exact { hs1 with current := ⟨y, hcurrent y hy⟩ }
  · exact { hran with
      blocks := fun _ _ _ => hran.blocks nofun
      body := rfl
      current := fun y hy => by
        rw [append_nil]
        exact hcurrent y hy
      globals := fun _ => congrArg Block.lines (Option.some.inj hglobals) }

end UnitCheck.Lowering
