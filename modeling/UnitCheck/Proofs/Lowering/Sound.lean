import UnitCheck.Proofs.Code.Ids
import UnitCheck.Proofs.Lowering.Parts
import UnitCheck.Proofs.Lowering.Upkeep

/-!
# What lowering keeps

Every step of lowering uses identifiers that earlier steps gave, or that it reads from the annotated
tree, so all identifiers stay in range. And lowering reports an error of its own only where a name
stands for a variable or parameter without a slot, or where a line is appended to a block that does
not exist. Both are one upkeep of lowering (`upkeep`): a state is `Sound` if its identifiers are in
range, what is being filled is there, and, as far as all is `calm`, no such error was reported.

Blocks are filled while they are being made, so to be calm only names ask for something: a slot of
what they stand for (`useIdent_kept`). Variables, parameters and loops give slots to what stands
behind or inside of them.
-/

namespace UnitCheck.Lowering

open Code List Syntax
open Resolution (Site declAt noteAt)

/-- All declarations that the tree was annotated with are in range. -/
structure Context.Within (c : Context) (P : DeclId → Prop) : Prop where
  none : P 0
  sites : ∀ {x : Site} {d : DeclId}, (∀ k, x ≠ .builtin k) → declAt c.tree x = some d → P d
  places : ∀ {x : Resolution.Place} {ds : List DeclId}, noteAt c.tree x = some ds → ∀ d ∈ ds, P d

theorem Context.within_all (c : Context) : c.Within fun _ => True :=
  ⟨trivial, fun _ _ => trivial, fun _ _ _ => trivial⟩

/-! ## Facts -/

/-- A fact about the nodes, slots and blocks of a state. -/
inductive Fact
  /-- An identifier is in range. -/
  | has (i : AnyId)
  /-- A declaration has a slot. -/
  | slot (d : DeclId)
  /-- A slot is one that was made. -/
  | made (l : LocalId)
  /-- What is to be filled is there. -/
  | target (b : Option BlockId)

def Fact.Holds (P : DeclId → Prop) (s : State) : Fact → Prop
  | has i => s.module.Has P i
  | slot d => d.isValid = true → d ∈ s.declSlots.map Prod.fst
  | made l => l.isValid = true
  | target b => ∀ i, b = some i → i.isValid = true ∧ s.module.Has P i.any

/-- What lowering keeps all the time. -/
structure Sound (calm : Prop) (P : DeclId → Prop) (s : State) : Prop where
  module : s.module.Sound P
  faults : calm → ∀ f ∈ s.faults.toList, f.code ≠ .internalError
  body : (Fact.target s.body).Holds P s
  slots : ∀ r ∈ s.slots, ∀ x ∈ r, x.2.isValid = true
  declSlots : ∀ x ∈ s.declSlots, x.2.isValid = true ∧ s.module.Has P x.2.any

/-- Identifiers stay in range, and slots are never taken away. -/
abbrev upkeep (calm : Prop) (P : DeclId → Prop) : Upkeep Fact where
  inv := Sound calm P
  le s s' := s.module.Le s'.module ∧ s.declSlots.map Prod.fst ⊆ s'.declSlots.map Prod.fst
  holds := Fact.Holds P
  refl _ := ⟨.refl _, .refl _⟩
  trans h h' := ⟨h.1.trans h'.1, List.Subset.trans h.2 h'.2⟩
  mono {s s' x} h hle := by
    cases x with
    | has i => exact h.mono hle.1
    | slot d => exact fun hd => hle.2 (h hd)
    | made l => exact h
    | target b => exact fun i hi => ⟨(h i hi).1, (h i hi).2.mono hle.1⟩

/-- A step that keeps the state sound, and gives facts about its outcome. -/
abbrev Keeps {α : Type} (calm : Prop) (P : DeclId → Prop) (known : List Fact) (a : Lower α)
    (o : α → List Fact) : Prop :=
  (upkeep calm P).Keeps known a o

/-- A step that gives something in range. -/
abbrev KeepsNew {k : IdKind} (calm : Prop) (P : DeclId → Prop) (known : List Fact)
    (a : Lower (Id k)) : Prop :=
  Keeps calm P known a fun i => [.has i.any]

variable {calm : Prop} {P : DeclId → Prop} {known : List Fact} {α : Type} {ds : List DeclId}
  {value : Lower ValueId} {d : DeclId}

namespace Sound

variable {s : State}

theorem has_slotOf (hs : Sound calm P s) (name : NameId) (d : DeclId) :
    s.module.Has P (s.slotOf name d).any := by
  obtain ⟨_, _, _, x, hx, -⟩ | hd | ⟨hzero, -⟩ := slotOf_cases s name d
  · exact (Array.getElem?_eq_some_iff.1 hx).1
  · exact (hs.declSlots _ hd).2
  · rw [hzero]
    exact hs.module.has_zero.2.2.1

theorem isValid_slotOf (hs : Sound calm P s) (hd : d ∈ s.declSlots.map Prod.fst)
    (name : NameId) : (s.slotOf name d).isValid = true := by
  obtain ⟨r, hr, hx, -⟩ | hx | ⟨-, hnone⟩ := slotOf_cases s name d
  · exact hs.slots r hr _ hx
  · exact (hs.declSlots _ hx).1
  · exact absurd hd hnone

theorem withModule (hs : Sound calm P s) {m : Module} (hm : m.Sound P) (hle : s.module.Le m) :
    Sound calm P { s with module := m } :=
  ⟨hm, hs.faults, fun i hi => ⟨(hs.body i hi).1, (hs.body i hi).2.mono hle⟩, hs.slots,
    fun x hx => ⟨(hs.declSlots x hx).1, (hs.declSlots x hx).2.mono hle⟩⟩

end Sound

/-! ## Steps -/

theorem keeps_onModule {f : Module → Module × α}
    (h : ∀ m : Module, m.Sound P → (∀ i, .has i ∈ known → m.Has P i) →
      (f m).1.Sound P ∧ m.Le (f m).1) : Keeps calm P known (onModule f) fun _ => [] := by
  intro s s' x hrun hs hk
  cases hrun
  obtain ⟨hm, hle⟩ := h s.module hs.module fun i hi => hk _ hi
  exact ⟨hs.withModule hm hle, ⟨hle, .refl _⟩, nofun⟩

theorem keeps_make {k : IdKind} {f : Module → Module × Id k}
    (h : ∀ m : Module, m.Sound P → (∀ i, .has i ∈ known → m.Has P i) → m.Adds P (f m)) :
    KeepsNew calm P known (onModule f) := by
  intro s s' x hrun hs hk
  cases hrun
  obtain ⟨hm, hle, hx⟩ := h s.module hs.module fun i hi => hk _ hi
  exact ⟨hs.withModule hm hle, ⟨hle, .refl _⟩, forall_mem_singleton.2 hx⟩

theorem keeps_modifyModule {f : Module → Module}
    (h : ∀ m : Module, m.Sound P → (∀ i, .has i ∈ known → m.Has P i) → (f m).Sound P ∧ m.Le (f m)) :
    Keeps calm P known (modifyModule f) fun _ => [] :=
  keeps_onModule (f := fun m => (f m, ())) h

theorem keeps_setSlots {f : State → List (List (NameId × LocalId))}
    (h : ∀ s, Sound calm P s → (∀ i ∈ known, i.Holds P s) → ∀ r ∈ f s, ∀ x ∈ r,
      x.2.isValid = true) :
    Keeps calm P known (modify fun s => { s with slots := f s }) fun _ => [] := by
  intro s s' x hrun hs hk
  cases hrun
  exact ⟨{ hs with slots := h s hs hk }, (upkeep calm P).refl s, nofun⟩

theorem keeps_setBody {b : Option BlockId} (hb : .target b ∈ known) :
    Keeps calm P known (modify fun s => { s with body := b }) fun _ => [] := by
  intro s s' x hrun hs hk
  cases hrun
  exact ⟨{ hs with body := hk _ hb }, (upkeep calm P).refl s, nofun⟩

theorem keeps_addArray (x : LocalId × UInt32) :
    Keeps calm P known (modify fun s => { s with arrays := s.arrays.push x }) fun _ => [] := by
  intro s s' x hrun hs hk
  cases hrun
  exact ⟨{ hs with }, (upkeep calm P).refl s, nofun⟩

theorem keeps_report {f : Fault} (hf : calm → f.code ≠ .internalError) :
    Keeps calm P known (report f) fun _ => [] := by
  intro s s' x hrun hs hk
  cases hrun
  refine ⟨{ hs with faults := fun hcalm g hg => ?_ }, (upkeep calm P).refl s, nofun⟩
  rw [Array.toList_push] at hg
  rcases mem_append.1 hg with hg | hg
  · exact hs.faults hcalm g hg
  · rw [mem_singleton.1 hg]
    exact hf hcalm

theorem keeps_invalidContext (span : Span) (message : Text) :
    Keeps calm P known (invalidContext span message) fun _ => [] :=
  keeps_report fun _ => show FaultCode.invalidContext ≠ _ by decide

variable {ids : List AnyId} {x : Local} {v : ValueId} {a : Lower α} {o : α → List Fact}
  {l : LocalId} {span : Span} {name : NameId} {i : TypeId} {n : ExprNode}
  {es : List (Lower ValueId)} {methods : DeclId → Lower (List DeclId)}

theorem has_of_known {m : Module} (h : ids.map .has ⊆ known)
    (hk : ∀ i, .has i ∈ known → m.Has P i) : ∀ i ∈ ids, m.Has P i :=
  fun i hi => hk i (h (mem_map_of_mem hi))

theorem keeps_onTypes (ids : List AnyId) {f : TypeTable → TypeTable × TypeId}
    (hids : ids.map .has ⊆ known)
    (h : ∀ T : TypeTable, 22 ≤ T.size → TypeTable.Makes ids T (f T).1 (f T).2) :
    KeepsNew calm P known (onTypes f) :=
  keeps_make fun m hm hk => hm.onTypes (has_of_known hids hk) (h m.types hm.builtins)

theorem keeps_newValue {x : Value} (hx : x.ids.map .has ⊆ known) (span : Span) :
    KeepsNew calm P known (newValue x span) :=
  keeps_make fun _ hm hk => hm.addValue (has_of_known hx hk) span

theorem keeps_newLocal (hx : x.ids.map .has ⊆ known) (span : Span) :
    Keeps calm P known (newLocal x span) fun l => [.made l, .has l.any] := by
  have hhas : KeepsNew calm P known (newLocal x span) :=
    keeps_make fun _ hm hk => hm.addLocal (has_of_known hx hk) span
  intro s s' l hrun hs hk
  obtain ⟨hs', hle, hl⟩ := hhas hrun hs hk
  cases hrun
  exact ⟨hs', hle, forall_mem_cons.2 ⟨rfl, hl⟩⟩

theorem keeps_addItem {x : Item} (hx : x.ids.map .has ⊆ known) :
    Keeps calm P known (onModule (·.addItem x)) fun _ => [] :=
  keeps_onModule fun _ hm hk => hm.addItem (has_of_known hx hk)

theorem keeps_modifyItem {f : Item → Item} (hids : ids.map .has ⊆ known)
    (hf : ∀ x, (f x).ids ⊆ x.ids ++ ids) (k : Nat) :
    Keeps calm P known (modifyModule (·.modifyItem k f)) fun _ => [] :=
  keeps_modifyModule fun _ hm hk => hm.modifyItem (fun x hx i hi =>
    (mem_append.1 (hf x hi)).elim (hx i) (has_of_known hids hk i)) k

theorem keeps_setFunc {f : Func} (hf : f.ids.map .has ⊆ known) (k : Nat) :
    Keeps calm P known (modifyModule (·.modifyItem k fun x => { x with func := some f }))
      fun _ => [] :=
  keeps_modifyItem hf (fun x => by grind [Item.ids]) k

theorem keeps_setType {t : TypeItem} (ht : t.ids.map .has ⊆ known) (k : Nat) :
    Keeps calm P known (modifyModule (·.modifyItem k fun x => { x with type := some t }))
      fun _ => [] :=
  keeps_modifyItem ht (fun x => by grind [Item.ids]) k

theorem keeps_modifyBlock (ids : List AnyId) {f : Block → Block} (hids : ids.map .has ⊆ known)
    (hf : ∀ x, (f x).ids ⊆ x.ids ++ ids) (b : BlockId) :
    Keeps calm P known (modifyModule (·.modifyBlock b f)) fun _ => [] :=
  keeps_modifyModule fun _ hm hk => hm.modifyBlock (fun x hx i hi =>
    (mem_append.1 (hf x hi)).elim (hx i) (has_of_known hids hk i)) b

theorem keeps_markValue (hv : .has v.any ∈ known) (x : Marks) :
    Keeps calm P known (markValue v x) fun _ => [] :=
  keeps_modifyModule fun m hm hk => by
    have hle : m.Le { m with valueMarks := Module.mark m.valueMarks v x } :=
      { Module.Le.refl m with }
    refine ⟨⟨{ hm.everyId hle with valueMarks := ?_ }, { hm.dense with }, hm.builtins, hm.noDecl,
      hm.marks⟩, hle⟩
    exact forall_mem_cons.2 ⟨(hk _ hv).mono hle, (hm.everyId hle).valueMarks⟩

theorem keeps_markLine {i : LineId} (hi : .has i.any ∈ known) (x : Marks) :
    Keeps calm P known (markLine i x) fun _ => [] :=
  keeps_modifyModule fun m hm hk => by
    have hle : m.Le { m with lineMarks := Module.mark m.lineMarks i x } := { Module.Le.refl m with }
    refine ⟨⟨{ hm.everyId hle with lineMarks := ?_ }, { hm.dense with }, hm.builtins, hm.noDecl,
      hm.marks⟩, hle⟩
    exact forall_mem_cons.2 ⟨(hk _ hi).mono hle, (hm.everyId hle).lineMarks⟩

theorem keeps_emit {x : Line} (hx : x.ids.map .has ⊆ known) (span : Span) :
    KeepsNew calm P known (emit x span) := by
  refine (keeps_make fun _ hm hk => hm.addLine (has_of_known hx hk) span).bind fun i => ?_
  refine .get_bind (fun s => [.target s.body]) (fun s hs => forall_mem_singleton.2 hs.body)
    fun s _ _ => ?_
  have hdone : KeepsNew calm P ([.target s.body] ++ ([.has i.any] ++ known))
    (pure i : Lower LineId) :=
    .pure (by simp)
  split
  · refine .andThen (keeps_modifyModule fun m hm hk => ?_) fun _ => hdone
    have hle : m.Le { m with globals := m.globals ++ [i] } := { Module.Le.refl m with }
    refine ⟨⟨{ hm.everyId hle with globals := ?_ }, { hm.dense with }, hm.builtins, hm.noDecl,
      hm.marks⟩, hle⟩
    refine forall_mem_append.2 ⟨(hm.everyId hle).globals, forall_mem_singleton.2 ?_⟩
    exact (hk _ (by simp)).mono hle
  next b hb =>
    refine .inspect fun s' hs' hk => ?_
    obtain ⟨hvalid, hlt⟩ := hk (.target s.body) mem_cons_self b hb
    have hblock : s'.module.block? b = some s'.module.blocks[b.index] := by
      rw [Module.block?, if_pos hvalid]
      exact Array.getElem?_eq_getElem hlt
    rw [hblock]
    refine .andThen (keeps_modifyBlock [i.any] (by simp) (fun x => ?_) _) fun _ => hdone
    grind [Block.ids]

theorem keeps_emitSynthetic {x : Line} (hx : x.ids.map .has ⊆ known) (span : Span) :
    Keeps calm P known (emitSynthetic x span) fun _ => [] :=
  (keeps_emit hx span).bind fun _ => keeps_markLine mem_cons_self _

theorem keeps_withSlots (h : Keeps calm P known a o) : Keeps calm P known (withSlots a) o := by
  refine .andThen (keeps_setSlots fun s hs _ => ?_) fun _ => h.bind fun x => ?_
  · exact forall_mem_cons.2 ⟨nofun, hs.slots⟩
  · refine .andThen (keeps_setSlots fun s hs _ r hr => ?_) fun _ => .pure (subset_append_left ..)
    exact hs.slots r (mem_of_mem_drop hr)

theorem keeps_bindSlot (hmade : .made l ∈ known) (hl : .has l.any ∈ known) (name : NameId)
    (d : DeclId) : Keeps calm P known (bindSlot name d l) fun _ => [.slot d] := by
  intro s s' x hrun hs hk
  cases hrun
  have hvalid : l.isValid = true := hk _ hmade
  refine ⟨{ hs with slots := ?_, declSlots := ?_ }, ⟨.refl _, ?_⟩, forall_mem_singleton.2 ?_⟩
  · have hslots := hs.slots
    dsimp only
    split
    next r rs heq =>
      rw [heq] at hslots
      obtain ⟨hr, hrs⟩ := forall_mem_cons.1 hslots
      exact forall_mem_cons.2 ⟨forall_mem_cons.2 ⟨hvalid, hr⟩, hrs⟩
    next => nofun
  · split
    · exact forall_mem_cons.2 ⟨⟨hvalid, hk _ hl⟩, hs.declSlots⟩
    · exact hs.declSlots
  · split
    · exact subset_cons_self ..
    · exact .refl _
  · intro hd
    show d ∈ (if d.isValid then (d, l) :: s.declSlots else s.declSlots).map Prod.fst
    rw [if_pos hd]
    exact mem_cons_self

theorem keeps_declare (hx : x.ids.map .has ⊆ known)
    {f : LocalId → Lower α}
    (hf : ∀ l : LocalId, Keeps calm P (.slot x.decl :: .has l.any :: known) (f l) o) :
    Keeps calm P known (do let l ← newLocal x span; bindSlot name x.decl l; f l) o := by
  refine (keeps_newLocal hx span).bind fun l => ?_
  refine (keeps_bindSlot (by simp) (by simp) name x.decl).bind fun _ => (hf l).mono ?_
  simp +contextual [subset_def]

/-- Only slots that no program text declares are marked. -/
theorem keeps_newTemp {type : TypeId} (htype : .has type.any ∈ known) (word : Text) (span : Span) :
    KeepsNew calm P known (newTemp word type span) := by
  refine .read fun s => .andThen (fun s s' x hrun hs hk => ?_) fun _ => ?_
  · cases hrun
    exact ⟨{ hs with }, (upkeep calm P).refl s, nofun⟩
  have hx (x : Local) (hdecl : x.decl = 0) (hx : x.type = type) :
      KeepsNew calm P known (do let l ← newLocal x span; markLocal l .synthetic; return l) := by
    intro s s' l hrun hs hk
    cases hrun
    have hids : ∀ i ∈ x.ids, s.module.Has P i := by
      rw [Local.ids, hdecl, hx]
      exact forall_mem_cons.2 ⟨hs.module.noDecl, forall_mem_singleton.2 (hk _ htype)⟩
    obtain ⟨hm, hle, hl⟩ := hs.module.addLocal hids span
    have hslot : (s.module.addLocal x span).1.locals[(s.module.addLocal x span).2.index]? =
      some x :=
      getElem?_push_of_size hs.module.dense.locals x
    obtain ⟨hm', hle'⟩ := hm.markLocal hslot hdecl .synthetic
    refine ⟨hs.withModule hm' (hle.trans hle'), ⟨hle.trans hle', .refl _⟩, ?_⟩
    exact forall_mem_singleton.2 (hl.mono hle')
  exact hx _ rfl rfl

theorem keeps_addBlock (span : Span) :
    Keeps calm P known (onModule (·.addBlock span)) fun b => [.target (some b), .has b.any] := by
  have hhas : KeepsNew calm P known (onModule (·.addBlock span)) :=
    keeps_make fun _ hm _ => hm.addBlock span
  intro s s' b hrun hs hk
  obtain ⟨hs', hle, hb⟩ := hhas hrun hs hk
  refine ⟨hs', hle, forall_mem_cons.2 ⟨fun i hi => ?_, hb⟩⟩
  cases hi
  refine ⟨?_, hb _ mem_cons_self⟩
  cases hrun
  rfl

theorem keeps_inBlock {fill : BlockId → Lower Unit}
    (h : ∀ b, Keeps calm P known (fill b) fun _ => []) :
    Keeps calm P known (inBlock span fill) fun b => [.has b.any] := by
  refine (keeps_addBlock span).bind fun b => ?_
  refine .get_bind (fun s => [.target s.body]) (fun s hs => forall_mem_singleton.2 hs.body)
    fun s _ _ => ?_
  refine .andThen (keeps_setBody (by simp)) fun _ => ?_
  refine .andThen (keeps_withSlots ((h b).mono (by simp +contextual [subset_def]))) fun _ => ?_
  exact .andThen (keeps_setBody (by simp)) fun _ => .pure (by simp)

theorem keeps_setTail (hv : .has v.any ∈ known) (b : BlockId) :
    Keeps calm P known (setTail b v) fun _ => [] :=
  keeps_modifyBlock [v.any] (by simpa using hv) (fun x => by grind [Block.ids]) b

theorem keeps_inGlobals (h : Keeps calm P known a fun _ => []) :
    Keeps calm P known (inGlobals a) fun _ => [] := by
  refine .get_bind (fun s => [.target s.body]) (fun s hs => forall_mem_singleton.2 hs.body)
    fun s _ _ => ?_
  refine .assume [.target none] (fun _ _ _ => forall_mem_singleton.2 nofun) ?_
  refine .andThen (keeps_setBody (by simp)) fun _ => .andThen (h.mono (by simp)) fun x => ?_
  exact .andThen (keeps_setBody (by simp)) fun _ => .pure (nil_subset _)

/-! ## Types -/

variable {c : Context}

namespace Context.Within

theorem ident (hc : c.Within P) (n : ExprNode) : P (identDecl c n) := by
  unfold identDecl
  cases h : c.tree.exprs.idents.get? n.record.index with
  | none => exact hc.none
  | some r => exact hc.places (by rw [noteAt, h]; rfl) _ mem_cons_self

theorem typeName (hc : c.Within P) (i : TypeExprId) :
    P (((c.tree.type? i).map TypeRecord.decl).getD 0) := by
  cases h : c.tree.type? i with
  | none => exact hc.none
  | some r => exact hc.places (x := .type i) (by rw [noteAt, h]; rfl) _ mem_cons_self

theorem site (hc : c.Within P) {x : Site} (hx : ∀ k, x ≠ .builtin k) :
    P ((declAt c.tree x).getD 0) := by
  cases h : declAt c.tree x with
  | none => exact hc.none
  | some d => exact hc.sites hx h

theorem parts (hc : c.Within P) (site : Nat → Site) (hsite : ∀ i k, site i ≠ .builtin k)
    (h : ∀ i, declAt c.tree (site i) = ds[i]?) : ∀ d ∈ ds, P d := by
  intro d hd
  obtain ⟨i, hi⟩ := mem_iff_getElem?.1 hd
  exact hc.sites (hsite i) ((h i).trans hi)

end Context.Within

theorem keeps_withDecl (hd : P d)
    (h : Keeps calm P (.has d.any :: known) a o) : Keeps calm P known a o :=
  .assume [.has d.any] (fun _ _ _ => forall_mem_singleton.2 hd) h

theorem keeps_builtin (hi : i.index ≤ 21) : KeepsNew calm P known (pure i : Lower TypeId) :=
  .constant fun _ hs => forall_mem_singleton.2 (Nat.lt_of_le_of_lt hi hs.module.builtins)

theorem keeps_named (hd : .has d.any ∈ known) (name : Text) :
    KeepsNew calm P known (onTypes (·.named d name)) :=
  keeps_onTypes [d.any] (by simpa using hd) fun _ _ => TypeTable.makes_named mem_cons_self _

theorem keeps_namedType (hd : P d) : KeepsNew calm P known (namedType c d) := by
  have herror : Builtin.error.index ≤ 21 := by decide
  unfold namedType
  split
  · exact keeps_builtin herror
  next decl _ =>
    refine .ite (fun _ => keeps_builtin herror) fun _ => ?_
    refine .ite (fun _ => keeps_builtin (ofName?_getD_le _).2) fun _ => ?_
    exact keeps_withDecl hd (keeps_named mem_cons_self _)

theorem keeps_withModifier (hi : .has i.any ∈ known) (m : Modifier) :
    KeepsNew calm P known (onTypes (·.withModifier i m)) :=
  keeps_onTypes [i.any] (by simpa using hi) fun _ hT =>
    TypeTable.makes_withModifier (Nat.lt_of_lt_of_le (by decide) hT) mem_cons_self m

theorem keeps_intern {s : Shape} (hs : s.ids.map .has ⊆ known) :
    KeepsNew calm P known (onTypes (·.intern (.ofShape s))) :=
  keeps_onTypes _ hs fun _ hT =>
    TypeTable.makes_intern (Nat.lt_of_lt_of_le (by decide) hT) fun _ hx => .inr hx

theorem keeps_lowerType (hc : c.Within P) : ∀ {known : List Fact} (x : TypeExpr),
    KeepsNew calm P known (lowerType c x)
  | _, .absent _ => keeps_builtin (Nat.zero_le _)
  | _, .lost => .throw _
  | _, .name n _ =>
    (keeps_namedType (hc.typeName n.id)).bind fun _ => keeps_withModifier mem_cons_self _
  | _, .array n elem length => by
    refine (keeps_lowerType hc elem).bind fun e => .bind (keeps_intern ?_) fun i =>
      keeps_withModifier mem_cons_self _
    split <;> exact subset_append_left ..
  | _, .ref _ elem _ | _, .pointer _ elem | _, .optional _ elem =>
    (keeps_lowerType hc elem).bind fun e => .bind (keeps_intern (subset_append_left ..)) fun i =>
      keeps_withModifier mem_cons_self _
  | _, .unknown n _ =>
    (keeps_builtin (by decide)).bind fun _ =>
      keeps_withModifier mem_cons_self _

/-! ## Uses of expressions -/

/-- All uses of an expression keep a state sound. -/
structure Use.Kept (calm : Prop) (P : DeclId → Prop) (known : List Fact) (u : Use) : Prop where
  value : KeepsNew calm P known u.value
  place : Keeps calm P known u.place fun x => (x.elim [] Place.ids).map .has
  block : KeepsNew calm P known u.block

theorem keeps_bodyOf (h : KeepsNew calm P known value) (span : Span) :
    KeepsNew calm P known (Use.bodyOf span value) :=
  keeps_inBlock fun _ => h.bind fun _ => keeps_setTail mem_cons_self _

theorem keeps_poison (span : Span) : KeepsNew calm P known (newValue .poison span) :=
  keeps_newValue (nil_subset _) span

namespace Use.Kept

variable {u : Use} {value : Lower ValueId} {place : Lower Place} {block : Lower BlockId}

theorem mono {known' : List Fact} (h : u.Kept calm P known) (hknown : known ⊆ known') :
    u.Kept calm P known' :=
  ⟨h.value.mono hknown, h.place.mono hknown, h.block.mono hknown⟩

theorem none : Use.none.Kept calm P known :=
  ⟨.constant fun _ hs => forall_mem_singleton.2 hs.module.has_zero.2.1, .pure (nil_subset _),
    .constant fun _ hs => forall_mem_singleton.2 hs.module.has_zero.1⟩

theorem ofValue (h : KeepsNew calm P known value) (span : Span) :
    (Use.ofValue span value).Kept calm P known :=
  ⟨h, .pure (nil_subset _), keeps_bodyOf h span⟩

theorem ofPlace (h : Keeps calm P known place fun x => x.ids.map .has) (span : Span) :
    (Use.ofPlace span place).Kept calm P known := by
  have hvalue : KeepsNew calm P known (do newValue (.load (← place)) span) :=
    h.bind fun _ => keeps_newValue (subset_append_left ..) span
  exact ⟨hvalue, h.map fun _ => subset_append_left .., keeps_bodyOf hvalue span⟩

theorem ofBlock (h : KeepsNew calm P known block) (span : Span) :
    (Use.ofBlock span block).Kept calm P known :=
  ⟨h.bind fun _ => keeps_newValue (subset_append_left ..) span, .pure (nil_subset _), h⟩

theorem placed (h : u.Kept calm P known) : Keeps calm P known u.placed fun x => x.ids.map .has := by
  refine h.place.bind fun x => ?_
  cases x with
  | some x => exact .pure (subset_append_left ..)
  | none =>
    refine h.value.bind fun v => .read fun s => ?_
    refine .assume [.has (0 : TypeId).any]
      (fun _ hs _ => forall_mem_singleton.2 hs.module.has_zero.2.2.2.1)
      ((keeps_newTemp mem_cons_self _ _).bind fun l => ?_)
    refine .andThen (keeps_emitSynthetic ?_ _) fun _ => .pure (subset_append_left ..)
    simp [Line.ids]

end Use.Kept

/-- To be calm, a name asks for a slot of the variable or parameter that it stands for. -/
theorem useIdent_kept (hc : c.Within P)
    (h : calm → ∀ d, c.decls.get? (identDecl c n) = some d → d.kind = .var ∨ d.kind = .param →
      .slot (identDecl c n) ∈ known) : (useIdent c n name).Kept calm P known := by
  have hslot (s : State) (hs : Sound calm P s) :
    ∀ i ∈ [Fact.has (s.slotOf name (identDecl c n)).any],
      i.Holds P s := forall_mem_singleton.2 (hs.has_slotOf name _)
  unfold useIdent
  dsimp only
  split
  · exact .ofValue (keeps_poison _) _
  next d hd =>
    have hlocal (hkind : d.kind = .var ∨ d.kind = .param) :
        (⟨slotValue c n name, slotPlace c n name, Use.bodyOf n.span (slotValue c n name)⟩ :
          Use).Kept calm P known := by
      have hdecl : (identDecl c n).isValid = true := by
        rw [Id.isValid, bne_iff_ne]
        intro hzero
        replace hd : c.decls.get? (identDecl c n) = some d := hd
        rw [Decls.get?, if_pos hzero] at hd
        cases hd
      have hvalue : KeepsNew calm P known (slotValue c n name) := by
        refine .get_bind _ hslot fun s hs hk => .ite (fun _ => ?_) fun hnone => ?_
        · exact keeps_newValue (subset_append_left ..) _
        · refine .andThen (keeps_report fun hcalm => ?_) fun _ => keeps_poison _
          exact absurd (hs.isValid_slotOf (hk _ (h hcalm d hd hkind) hdecl) name) hnone
      refine ⟨hvalue, .get_bind _ hslot fun _ _ _ => .pure ?_, keeps_bodyOf hvalue _⟩
      split
      · exact subset_append_left ..
      · exact nil_subset _
    split
    next hkind => exact hlocal (.inl hkind)
    next hkind => exact hlocal (.inr hkind)
    · refine .ofValue (keeps_withDecl (hc.ident n) ?_) _
      exact keeps_newValue (subset_append_left ..) _
    · exact .ofValue (.andThen (keeps_invalidContext _ _) fun _ => keeps_poison _) _

/-! ## Pieces -/

theorem keeps_fillArray (h : ∀ e ∈ es, KeepsNew calm P known e) (i : Nat) :
    Keeps calm P (.has l.any :: known) (fillArray l i es) fun _ => [] := by
  induction es generalizing i with
  | nil => exact .pure (nil_subset _)
  | cons e es ih =>
    obtain ⟨he, hes⟩ := forall_mem_cons.1 h
    refine (he.mono (subset_cons_self ..)).bind fun v => .read fun s => ?_
    refine .bind (keeps_newValue (nil_subset _) _) fun index => ?_
    refine .andThen (keeps_markValue mem_cons_self _) fun _ => ?_
    refine .andThen (keeps_emitSynthetic (by simp [Line.ids, Place.ids]) _) fun _ => ?_
    exact (ih hes _).mono (by simp +contextual [subset_def])

theorem keeps_lowerArray (hc : c.Within P)
    (h : ∀ e ∈ es, KeepsNew calm P known e) (n : ExprNode) (elemType : TypeExpr) :
    KeepsNew calm P known (lowerArray c n elemType es) := by
  unfold lowerArray
  split
  case isFalse => exact .andThen (keeps_invalidContext _ _) fun _ => keeps_poison _
  refine (keeps_lowerType hc elemType).bind fun elem => ?_
  refine .ite_bind (fun _ => keeps_intern (subset_append_left ..))
    (fun _ => keeps_builtin (Nat.zero_le _)) fun type => ?_
  refine .bind (keeps_newTemp mem_cons_self _ _) fun l => ?_
  refine .bind (keeps_newValue (by simp [Value.ids]) _) fun alloc => ?_
  refine .andThen (keeps_markValue mem_cons_self _) fun _ => ?_
  refine .andThen (keeps_emitSynthetic (by simp [Line.ids]) _) fun _ => ?_
  refine .andThen ((keeps_fillArray h 0).mono (by simp +contextual [subset_def])) fun _ => ?_
  refine .andThen (keeps_addArray _) fun _ => ?_
  refine .bind (keeps_newValue (by simp [Value.ids, Place.ids]) _) fun v => ?_
  exact .andThen (keeps_markValue mem_cons_self _) fun _ => .pure (subset_append_left ..)

theorem keeps_lowerFor (hc : c.Within P) {iter : Lower ValueId} {body : Lower BlockId}
    (hiter : KeepsNew calm P known iter)
    (hbody : KeepsNew calm P (.slot (loopDecl c n) :: known) body)
    (binding : NameId) (bindingSpan : Span) :
    KeepsNew calm P known (lowerFor c n binding bindingSpan iter body) := by
  have hdecl : P (loopDecl c n) := hc.site (x := .loop n.record) (by rintro _ ⟨⟩)
  refine .andThen (keeps_report fun _ => show FaultCode.unstableFeature ≠ _ by decide) fun _ => ?_
  refine hiter.bind fun i => .bind (o := fun x : LocalId × BlockId => [.has x.1.any, .has x.2.any])
    (keeps_withSlots (keeps_withDecl hdecl (.assume [.has (0 : TypeId).any] (fun _ hs _ => ?_) ?_)))
    fun x => ?_
  · exact forall_mem_singleton.2 hs.module.has_zero.2.2.2.1
  · refine keeps_declare (by simp [Local.ids, loopDecl]) fun l => .bind (hbody.mono ?_) fun b =>
      .pure ?_
    · simp +contextual [subset_def, loopDecl]
    · simp
  · refine .bind (keeps_newValue (by simp [Value.ids]) _) fun v => ?_
    exact .andThen (keeps_markValue mem_cons_self _) fun _ => .pure (subset_append_left ..)

theorem keeps_lowerVar (hc : c.Within P)
    (hvalue : KeepsNew calm P known value) (n : StmtNode) (name : NameId)
    (nameSpan : Span) (type : TypeExpr) (modifier : Modifier) :
    Keeps calm P known (lowerVar c n name nameSpan type value modifier) fun x =>
      [.slot (varDecl c n), .has x.1.any, .has x.2.1.any, .has x.2.2.any] := by
  have hdecl : P (varDecl c n) := hc.site (x := .var n.record) (by rintro _ ⟨⟩)
  refine hvalue.bind fun v => .bind (keeps_lowerType hc type) fun t => keeps_withDecl hdecl ?_
  refine keeps_declare (by simp [Local.ids, varDecl]) fun l => ?_
  refine .bind (keeps_emit (by simp [Line.ids]) _) fun i => .pure ?_
  simp [varDecl]

theorem keeps_lowerAssign {u : Use} (hu : u.Kept calm P known)
    (hvalue : KeepsNew calm P known value) (n : StmtNode) (target : Expr) :
    Keeps calm P known (lowerAssign c n target u value) fun _ => [] := by
  have heval : Keeps calm P known (do let v ← value; discard (emit (.eval v) n.span)) fun _ => [] :=
    hvalue.bind fun v => (keeps_emit (subset_append_left ..) _).discard
  refine .ite (fun _ => heval) fun _ => hu.place.bind fun x => ?_
  cases x with
  | some x =>
    refine hvalue.behind fun v => (keeps_emit ?_ _).discard
    grind [Line.ids]
  | none => exact .need_bind fun t _ => .andThen (keeps_invalidContext _ _) fun _ => heval

theorem forall_headD (hnone : P 0) (hds : ∀ d ∈ ds, P d) : P (ds.headD 0) := by
  cases ds with
  | nil => exact hnone
  | cons d ds => exact hds d mem_cons_self

theorem keeps_lowerParams (hc : c.Within P) (hds : ∀ d ∈ ds, P d) (fs : List ParamForm) :
    Keeps calm P known (lowerParams c ds fs) fun xs => (xs.flatMap Param.ids).map .has ++
      (List.range fs.length).map fun i => .slot (ds[i]?.getD 0) := by
  induction fs generalizing ds known with
  | nil => exact .pure (nil_subset _)
  | cons f fs ih =>
    have hhead : ds[0]?.getD 0 = ds.headD 0 := by cases ds <;> rfl
    refine (keeps_lowerType hc f.type).bind fun t => keeps_withDecl (forall_headD hc.none hds) ?_
    refine keeps_declare (by simp [Local.ids]) fun l => ?_
    refine .bind (ih fun d hd => hds d (mem_of_mem_drop hd)) fun xs => .pure ?_
    rw [length_cons, range_succ_eq_map, map_cons, map_map]
    simp only [subset_def, mem_append, mem_map, mem_flatMap, Param.ids]
    grind

theorem keeps_lowerMembers (hc : c.Within P) (hds : ∀ d ∈ ds, P d) (fs : List MemberForm) :
    Keeps calm P known (lowerMembers c ds fs) fun xs => (xs.flatMap Member.ids).map .has := by
  induction fs generalizing ds known with
  | nil => exact .pure (nil_subset _)
  | cons f fs ih =>
    refine (keeps_lowerType hc f.type).bind fun t => keeps_withDecl (forall_headD hc.none hds) ?_
    refine .bind (ih fun d hd => hds d (mem_of_mem_drop hd)) fun xs => .pure ?_
    simp +contextual [Member.ids]

def siteDecl (c : Context) (x : Site) : DeclId := (declAt c.tree x).getD 0

/-- What is known in the body of a function: every parameter has a slot. -/
def paramSlots (c : Context) (n : StmtNode) (params : List ParamForm) : List Fact :=
  (List.range params.length).map fun i => .slot (siteDecl c (.param n.record i))

/-- A function: its parameters have slots before its body is lowered. Its item has no body before
that. -/
theorem keeps_lowerFunc (hc : c.Within P) {owner : DeclId} (howner : P owner) {n : StmtNode}
    {params : List ParamForm} {body : Option (Lower BlockId)}
    (hbody : ∀ b, body = some b → KeepsNew calm P (paramSlots c n params ++ known) b)
    (name : NameId) (result : TypeExpr) :
    KeepsNew calm P known (lowerFunc c n owner name params result body) := by
  refine .need_bind fun r hr => ?_
  have hdecl : P r.decl := hc.sites (x := .func n.record) (by rintro _ ⟨⟩) (by rw [declAt, hr]; rfl)
  have hat (i : Nat) : declAt c.tree (.param n.record i) =
      ((r.params.getD []).map Syntax.Param.decl)[i]? := by
    rw [declAt, hr, Option.bind_some, ← List.getElem?_map]
  have hparams := hc.parts (.param n.record) (by rintro _ _ ⟨⟩) hat
  have hslots : (List.range params.length).map (fun i =>
      .slot (((r.params.getD []).map Syntax.Param.decl)[i]?.getD 0)) = paramSlots c n params :=
    map_congr_left fun i _ => by rw [siteDecl, hat]
  -- the slots by their names are put back in the end
  refine .get_bind (fun s => s.slots.flatten.map fun x => .made x.2) (fun s hs i hi => ?_)
    fun s _ _ => ?_
  · obtain ⟨x, hx, rfl⟩ := mem_map.1 hi
    obtain ⟨r, hr, hx⟩ := mem_flatten.1 hx
    exact hs.slots r hr x hx
  have hdone {known : List Fact} (hsaved : s.slots.flatten.map (fun x => .made x.2) ⊆ known)
      (hknown : .has r.decl.any ∈ known) :
      KeepsNew calm P known (do modify fun s' : State =>
        { s' with slots := s.slots }; return r.decl) := by
    refine .andThen (keeps_setSlots fun _ _ hk r hr x hx => ?_) fun _ =>
      .pure (by simpa using hknown)
    exact hk (.made x.2) (hsaved (mem_map.2 ⟨x, mem_flatten.2 ⟨r, hr, hx⟩, rfl⟩))
  generalize s.slots.flatten.map (fun x => Fact.made x.2) = saved at hdone ⊢
  refine .andThen (keeps_setSlots fun _ _ _ => forall_mem_singleton.2 nofun) fun _ => ?_
  refine .bind (keeps_lowerType hc result) fun declared => ?_
  have hresult (s : State) (hs : Sound calm P s) (hd : s.module.Has P declared.any) :
      s.module.Has P (if result.id.isValid then declared else Builtin.unit).any := by
    split
    · exact hd
    · exact Nat.lt_of_lt_of_le (by decide) hs.module.builtins
  generalize (if result.id.isValid then declared else Builtin.unit) = res at hresult ⊢
  refine .assume [.has res.any, .has r.decl.any, .has owner.any, .has (0 : BlockId).any]
    (fun s hs hk => ?_) ?_
  · simp only [forall_mem_cons]
    exact ⟨hresult s hs (hk _ mem_cons_self), hdecl, howner, hs.module.has_zero.1, nofun⟩
  refine .bind (keeps_lowerParams hc hparams params) fun xs => ?_
  rw [hslots]
  refine .bind (keeps_onTypes ((res :: xs.map Code.Param.type).map Id.any) ?_
    fun T _ => TypeTable.makes_fn fun j hj => mem_map_of_mem hj) fun type => ?_
  · simp only [subset_def, map_cons, mem_cons, mem_append, mem_map]
    rintro _ (rfl | ⟨_, ⟨_, ⟨x, hx, rfl⟩, rfl⟩, rfl⟩)
    · simp
    · exact .inl (.inl ⟨_, mem_flatMap.2 ⟨x, hx, by simp [Param.ids]⟩, rfl⟩)
  refine .ite_bind (o := fun _ => []) (fun _ => ?_) (fun _ => .pure (nil_subset _)) fun item? => ?_
  · refine .map (keeps_addItem ?_) fun _ => nil_subset _
    simp +contextual [Item.ids, Func.ids, subset_def]
  cases body with
  | none => exact hdone (by simp +contextual [subset_def]) (by simp)
  | some lower =>
    refine .bind ((hbody lower rfl).mono (by grind)) fun b => ?_
    cases item? with
    | none => exact hdone (by simp +contextual [subset_def]) (by simp)
    | some at_ =>
      refine .andThen (keeps_setFunc ?_ _) fun _ =>
        hdone (by simp +contextual [subset_def]) (by simp)
      simp +contextual [Func.ids, subset_def]

theorem keeps_lowerTypeDecl (hc : c.Within P)
    (hmethods : ∀ d, P d → Keeps calm P known (methods d) fun ds => ds.map fun d => .has d.any)
    (n : StmtNode) (kind : TypeDeclKind) (name : NameId) (fields variants : List MemberForm) :
    Keeps calm P known (lowerTypeDecl c n kind name fields variants methods) fun _ => [] := by
  refine .need_bind fun r hr => .ite (fun _ => ?_) fun _ => .pure (nil_subset _)
  have hdecl : P r.decl := hc.sites (x := .type n.record) (by rintro _ ⟨⟩) (by rw [declAt, hr]; rfl)
  have hfields : ∀ d ∈ (r.fields.getD []).map Syntax.Member.decl, P d :=
    hc.parts (.field n.record) (by rintro _ _ ⟨⟩) fun i => by
      rw [declAt, hr, Option.bind_some, ← List.getElem?_map]
  have hvariants : ∀ d ∈ (r.variants.getD []).map Syntax.Member.decl, P d :=
    hc.parts (.variant n.record) (by rintro _ _ ⟨⟩) fun i => by
      rw [declAt, hr, Option.bind_some, ← List.getElem?_map]
  refine keeps_withDecl hdecl (.bind (keeps_named mem_cons_self _) fun type => ?_)
  refine .bind (keeps_lowerMembers hc hfields fields) fun fs => ?_
  refine .bind (keeps_lowerMembers hc hvariants variants) fun vs => ?_
  refine .andThen (keeps_addItem ?_) fun at_ => ?_
  · grind [Item.ids, TypeItem.ids]
  · refine .bind ((hmethods _ hdecl).mono (by simp +contextual [subset_def])) fun ms =>
      keeps_setType ?_ _
    grind [TypeItem.ids]

theorem keeps_lowerImpl (hc : c.Within P)
    (hmethods : ∀ d, P d → Keeps calm P known (methods d) fun ds => ds.map fun d => .has d.any)
    (n : StmtNode) (trait target : TypeExpr) :
    Keeps calm P known (lowerImpl c n trait target methods) fun _ => [] := by
  have hname (t : TypeExpr) :
    P (((t.node?.bind fun n => c.tree.type? n.id).map TypeRecord.decl).getD 0) := by
    cases t.node? with
    | none => exact hc.none
    | some n => exact hc.typeName n.id
  refine (keeps_lowerType hc target).bind fun type =>
    (hmethods _ (hname target)).behind fun ms => ?_
  refine keeps_modifyModule fun m hm hk => ?_
  generalize hx : Impl.mk _ type ms n.span = x
  have hle : m.Le { m with impls := m.impls ++ [x] } := { Module.Le.refl m with }
  refine ⟨⟨{ hm.everyId hle with impls := ?_ }, { hm.dense with }, hm.builtins, hm.noDecl,
    hm.marks⟩, hle⟩
  refine forall_mem_append.2 ⟨(hm.everyId hle).impls, forall_mem_singleton.2 ?_⟩
  subst hx
  refine forall_mem_cons.2 ⟨hname trait, forall_mem_cons.2 ⟨?_, fun i hi => ?_⟩⟩
  · exact (hk _ (by simp)).mono hle
  · obtain ⟨d, hd, rfl⟩ := mem_map.1 hi
    exact (hk _ (mem_append_left _ (mem_map_of_mem hd))).mono hle

end UnitCheck.Lowering
