import UnitCheck.Proofs.Lowering.Bodies

/-!
# The identifiers that a module holds

Nodes refer to each other, to types and to declarations by identifiers. `Module.EveryId m H` says
something of every identifier that stands anywhere in a module, and `Module.Has` that a table has an
entry for an identifier. A module is `Sound` if both come together. The operations that make up a
module keep it sound, as long as what they are given names only what is there.
-/

namespace UnitCheck

open List

abbrev AnyId := (k : IdKind) × Id k

def Id.any {k : IdKind} (i : Id k) : AnyId := ⟨k, i⟩

/-! ## Identifiers in types -/

/-- What a type names: its parts, the declaration of a declared type, or an inference variable. -/
def Shape.ids : Shape → List AnyId
  | .named d _ => [d.any]
  | .var v => [v.any]
  | s => s.parts.map Id.any

def Signature.ids (s : Signature) : List AnyId := (s.result :: s.params).map Id.any

def TypeTable.ids (t : TypeTable) : List AnyId :=
  t.types.toList.flatMap (fun ty => ty.shape.ids) ++ t.signatures.toList.flatMap Signature.ids ++
    t.names.toList.map (fun x => x.decl.any) ++ t.byDecl.flatMap fun x => [x.1.any, x.2.any]

namespace Code

/-! ## Identifiers in code -/

def Place.ids : Place → List AnyId
  | missing | unknown _ => []
  | slot l => [l.any]
  | index base i => base.ids ++ [i.any]
  | deref base | field base _ => base.ids

def Value.ids : Value → List AnyId
  | poison | literal _ _ | broken _ | unknown _ => []
  | load place | ref place _ => place.ids
  | funcRef d => [d.any]
  | binary _ left right => [left.any, right.any]
  | unary _ v => [v.any]
  | call callee args candidates => callee.any :: (args.map Id.any ++ candidates.map Id.any)
  | cast v type => [v.any, type.any]
  | block b => [b.any]
  | ifElse chain => (chain.elim [] Chain.branches).flatMap fun x => [x.1.any, x.2.any]
  | whileLoop cond b => [cond.any, b.any]
  | forLoop l iter b => [l.any, iter.any, b.any]
  | stackArray elem _ => [elem.any]

def Line.ids : Line → List AnyId
  | bind l v => [l.any, v.any]
  | assign place v => place.ids ++ [v.any]
  | eval v | return_ v | break_ v => [v.any]
  | continue_ | unknown _ => []

def Block.ids (x : Block) : List AnyId := x.tail.any :: x.lines.map Id.any

def Local.ids (x : Local) : List AnyId := [x.decl.any, x.type.any]

def Param.ids (x : Param) : List AnyId := [x.slot.any, x.decl.any, x.type.any]

def Func.ids (x : Func) : List AnyId :=
  [x.result.any, x.body.any, x.owner.any, x.type.any] ++ x.params.flatMap Param.ids

def Member.ids (x : Member) : List AnyId := [x.decl.any, x.type.any]

def TypeItem.ids (x : TypeItem) : List AnyId :=
  x.type.any :: (x.fields.flatMap Member.ids ++ x.variants.flatMap Member.ids ++
    x.methods.map Id.any)

def Global.ids (x : Global) : List AnyId := [x.slot.any, x.line.any]

def Item.ids (x : Item) : List AnyId :=
  x.decl.any :: (x.func.elim [] Func.ids ++ x.type.elim [] TypeItem.ids ++
    x.global.elim [] Global.ids)

def Impl.ids (x : Impl) : List AnyId := x.trait.any :: x.target.any :: x.methods.map Id.any

namespace Module

/-- Something holds of every identifier that stands in a module. -/
structure EveryId (m : Module) (H : AnyId → Prop) : Prop where
  items : ∀ x ∈ m.items, ∀ i ∈ x.1.any :: x.2.ids, H i
  itemOrder : ∀ d ∈ m.itemOrder, H d.any
  impls : ∀ x ∈ m.impls, ∀ i ∈ x.ids, H i
  globals : ∀ i ∈ m.globals, H i.any
  blocks : ∀ x ∈ m.blocks, ∀ i ∈ x.ids, H i
  lines : ∀ x ∈ m.lines, ∀ i ∈ x.ids, H i
  values : ∀ x ∈ m.values, ∀ i ∈ x.ids, H i
  locals : ∀ x ∈ m.locals, ∀ i ∈ x.ids, H i
  lineMarks : ∀ x ∈ m.lineMarks, H x.1.any
  valueMarks : ∀ x ∈ m.valueMarks, H x.1.any
  localMarks : ∀ x ∈ m.localMarks, H x.1.any
  types : ∀ i ∈ m.types.ids, H i

variable {m : Module}

theorem EveryId.mono {H H' : AnyId → Prop} (h : m.EveryId H) (hH : ∀ i, H i → H' i) :
    m.EveryId H' where
  items x hx i hi := hH i (h.items x hx i hi)
  itemOrder d hd := hH _ (h.itemOrder d hd)
  impls x hx i hi := hH i (h.impls x hx i hi)
  globals i hi := hH _ (h.globals i hi)
  blocks x hx i hi := hH i (h.blocks x hx i hi)
  lines x hx i hi := hH i (h.lines x hx i hi)
  values x hx i hi := hH i (h.values x hx i hi)
  locals x hx i hi := hH i (h.locals x hx i hi)
  lineMarks x hx := hH _ (h.lineMarks x hx)
  valueMarks x hx := hH _ (h.valueMarks x hx)
  localMarks x hx := hH _ (h.localMarks x hx)
  types i hi := hH i (h.types i hi)

/-- The table of an identifier's kind has an entry for it. Declarations are kept elsewhere, and `P`
says which ones there are. A module has no names, inference variables or nodes of the syntax
tree. -/
def Has (m : Module) (P : DeclId → Prop) : AnyId → Prop
  | ⟨.block, i⟩ => i.index < m.blocks.size
  | ⟨.line, i⟩ => i.index < m.lines.size
  | ⟨.value, i⟩ => i.index < m.values.size
  | ⟨.local_, i⟩ => i.index < m.locals.size
  | ⟨.type, i⟩ => i.index < m.types.size
  | ⟨.decl, d⟩ => P d
  | _ => False

/-- The tables of one module are no longer than those of another. -/
structure Le (m m' : Module) : Prop where
  blocks : m.blocks.size ≤ m'.blocks.size
  lines : m.lines.size ≤ m'.lines.size
  values : m.values.size ≤ m'.values.size
  locals : m.locals.size ≤ m'.locals.size
  types : m.types.size ≤ m'.types.size

theorem Le.refl (m : Module) : m.Le m :=
  ⟨.refl, .refl, .refl, .refl, .refl⟩

theorem Le.trans {m' m'' : Module} (h : m.Le m') (h' : m'.Le m'') : m.Le m'' :=
  ⟨Nat.le_trans h.blocks h'.blocks, Nat.le_trans h.lines h'.lines, Nat.le_trans h.values h'.values,
    Nat.le_trans h.locals h'.locals, Nat.le_trans h.types h'.types⟩

variable {m m' : Module} {P : DeclId → Prop}

theorem Has.mono (h : m.Le m') : ∀ {i : AnyId}, m.Has P i → m'.Has P i
  | ⟨.block, _⟩, hi => Nat.lt_of_lt_of_le hi h.blocks
  | ⟨.line, _⟩, hi => Nat.lt_of_lt_of_le hi h.lines
  | ⟨.value, _⟩, hi => Nat.lt_of_lt_of_le hi h.values
  | ⟨.local_, _⟩, hi => Nat.lt_of_lt_of_le hi h.locals
  | ⟨.type, _⟩, hi => Nat.lt_of_lt_of_le hi h.types
  | ⟨.decl, _⟩, hi => hi

/-! ## Sound modules -/

/-- Every identifier in a module names something. The built-in types are there, and marks for slots
that no program text declares stand on such slots only. -/
structure Sound (P : DeclId → Prop) (m : Module) : Prop where
  ids : m.EveryId (m.Has P)
  dense : m.Dense
  builtins : 22 ≤ m.types.size
  noDecl : P 0
  marks : ∀ x ∈ m.localMarks, ∃ y, m.locals[x.1.index]? = some y ∧ y.decl = 0

theorem Sound.has_zero (h : m.Sound P) : m.Has P (0 : BlockId).any ∧ m.Has P (0 : ValueId).any ∧
    m.Has P (0 : LocalId).any ∧ m.Has P (0 : TypeId).any ∧ m.Has P (0 : DeclId).any := by
  have hblocks : 0 < m.blocks.size := by rw [h.dense.blocks]; exact Nat.succ_pos _
  have hvalues : 0 < m.values.size := by rw [h.dense.values]; exact Nat.succ_pos _
  have hlocals : 0 < m.locals.size := by rw [h.dense.locals]; exact Nat.succ_pos _
  exact ⟨hblocks, hvalues, hlocals, Nat.lt_of_lt_of_le (by decide) h.builtins, h.noDecl⟩

/-- A module that got longer, and something that it has. -/
structure Adds {k : IdKind} (P : DeclId → Prop) (m : Module) (r : Module × Id k) : Prop where
  sound : r.1.Sound P
  le : m.Le r.1
  has : r.1.Has P r.2.any

theorem Sound.everyId (h : m.Sound P) (hle : m.Le m') : m.EveryId (m'.Has P) :=
  h.ids.mono fun _ hi => hi.mono hle

end Module

end Code

/-! ## Making types -/

namespace TypeTable

variable {T T' : TypeTable} {known : List AnyId} {i : TypeId} {ty : Ty}

/-- A step that makes types: everything new names what is known, or types of the table. -/
structure Makes (known : List AnyId) (T T' : TypeTable) (i : TypeId) : Prop where
  size_le : T.size ≤ T'.size
  ids : ∀ x ∈ T'.ids, x ∈ T.ids ∨ x ∈ known ∨ ∃ j : TypeId, x = j.any ∧ j.index < T'.size
  index : i.any ∈ known ∨ i.any ∈ T.ids ∨ i.index < T'.size

theorem Makes.of_lt (h : i.index < T.size) : Makes known T T i :=
  ⟨.refl, fun _ hx => .inl hx, .inr (.inr h)⟩

theorem mem_ids {x : AnyId} : x ∈ T.ids ↔ (∃ ty ∈ T.types, x ∈ ty.shape.ids) ∨
    (∃ s ∈ T.signatures, x ∈ s.ids) ∨ (∃ n ∈ T.names, x = n.decl.any) ∨
    ∃ y ∈ T.byDecl, x = y.1.any ∨ x = y.2.any := by
  simp [ids, eq_comm]

theorem makes_push (hty : ∀ x ∈ ty.shape.ids, x ∈ T.ids ∨ x ∈ known) :
    Makes known T (T.push ty).1 (T.push ty).2 where
  size_le := by simp [push, size]
  ids x hx := by
    simp only [mem_ids, push, Array.mem_push] at hx ⊢
    rcases hx with ⟨ty', hty' | rfl, hx⟩ | hx
    · exact .inl (.inl ⟨ty', hty', hx⟩)
    · exact (hty x hx).elim (fun h => .inl (mem_ids.1 h)) fun h => .inr (.inl h)
    · exact .inl (.inr hx)
  index := .inr (.inr (by simp [push, size]))

theorem makes_intern (hpos : 0 < T.size) (hty : ∀ x ∈ ty.shape.ids, x ∈ T.ids ∨ x ∈ known) :
    Makes known T (T.intern ty).1 (T.intern ty).2 := by
  unfold intern
  split
  · exact .of_lt hpos
  · split
    next j hfind =>
      obtain ⟨k, hk, rfl⟩ := Option.map_eq_some_iff.1 hfind
      exact .of_lt (Array.getElem?_eq_some_iff.1 (lastIndex?_eq_some hk)).1
    next => exact makes_push hty

theorem makes_withModifier (hpos : 0 < T.size) (hi : i.any ∈ known) (m : Modifier) :
    Makes known T (T.withModifier i m).1 (T.withModifier i m).2 := by
  have hstay : Makes known T T i := ⟨.refl, fun _ hx => .inl hx, .inl hi⟩
  unfold withModifier
  split
  · exact hstay
  next ty hlook =>
    split
    · exact hstay
    · -- a type with another modifier has the same parts
      refine makes_intern hpos fun x hx => .inl (mem_ids.2 (.inl ⟨ty, ?_, hx⟩))
      exact Array.mem_of_getElem? (lookup?_eq_some_iff.1 hlook).2

theorem makes_fn {params : List TypeId} {result : TypeId}
    (h : ∀ j ∈ result :: params, j.any ∈ known) :
    Makes known T (T.fn params result).1 (T.fn params result).2 := by
  unfold fn
  dsimp only
  split
  next j hfind =>
    obtain ⟨slot, hlook, -⟩ := findFn?_eq_some Nat.one_ne_zero hfind
    exact .of_lt (lt_size_of_lookup? hlook)
  next =>
    let T1 : TypeTable := { T with signatures := T.signatures.push ⟨params, result⟩ }
    let ty : Ty := .ofShape (.fn T.signatures.size)
    have made : Makes known T1 (T1.push ty).1 (T1.push ty).2 := makes_push nofun
    refine ⟨made.size_le, fun x hx => ?_, .inr (.inr (by simp [push, size]))⟩
    rcases made.ids x hx with hx | hx
    · simp only [T1, mem_ids, Array.mem_push] at hx ⊢
      rcases hx with hx | ⟨s, hs | rfl, hx⟩ | hx
      · exact .inl (.inl hx)
      · exact .inl (.inr (.inl ⟨s, hs, hx⟩))
      · obtain ⟨j, hj, rfl⟩ := mem_map.1 hx
        exact .inr (.inl (h j hj))
      · exact .inl (.inr (.inr hx))
    · exact .inr hx

theorem makes_named {d : DeclId} (hd : d.any ∈ known) (name : Text) :
    Makes known T (T.named d name).1 (T.named d name).2 := by
  unfold named
  split
  next j hfind =>
    obtain ⟨l, l', heq, -⟩ := lookup_eq_some_iff.1 hfind
    refine ⟨.refl, fun _ hx => .inl hx, .inr (.inl (mem_ids.2 (.inr (.inr (.inr ?_)))))⟩
    exact ⟨(d, j), by rw [heq]; exact mem_append_right _ mem_cons_self, .inr rfl⟩
  next =>
    refine ⟨by simp [push, size], fun x hx => ?_, .inr (.inr (by simp [push, size]))⟩
    simp only [mem_ids, push, Array.mem_push, mem_cons] at hx ⊢
    rcases hx with ⟨ty, hty | rfl, hx⟩ | hx | ⟨n, hn | rfl, rfl⟩ | ⟨y, rfl | hy, hx⟩
    · exact .inl (.inl ⟨ty, hty, hx⟩)
    · rw [mem_singleton.1 hx]
      exact .inr (.inl hd)
    · exact .inl (.inr (.inl hx))
    · exact .inl (.inr (.inr (.inl ⟨n, hn, rfl⟩)))
    · exact .inr (.inl hd)
    · rcases hx with rfl | rfl
      · exact .inr (.inl hd)
      · exact .inr (.inr ⟨_, rfl, by simp [size]⟩)
    · exact .inl (.inr (.inr (.inr ⟨y, hy, hx⟩)))

end TypeTable

/-! ## Making nodes -/

namespace Code.Module.Sound

variable {m : Module} {P : DeclId → Prop} {known : List AnyId}

variable {α : Type} {a : Array α} {Q : α → Prop}

theorem forall_mem_push {x : α} (h : ∀ y ∈ a, Q y) (hx : Q x) : ∀ y ∈ a.push x, Q y := fun y hy =>
  (Array.mem_push.1 hy).elim (h y) fun hy => hy ▸ hx

theorem lt_size_push {n : Nat} (h : a.size = n) (x : α) : n < (a.push x).size := by
  rw [Array.size_push, h]
  exact .refl

theorem forall_mem_modify {k : Nat} {f : α → α}
    (h : ∀ y ∈ a, Q y) (hf : ∀ y, Q y → Q (f y)) : ∀ y ∈ a.modify k f, Q y := fun y hy => by
  obtain ⟨j, hj⟩ := Array.mem_iff_getElem?.1 hy
  rw [Array.getElem?_modify] at hj
  split at hj
  · obtain ⟨x, hx, rfl⟩ := Option.map_eq_some_iff.1 hj
    exact hf x (h x (Array.mem_of_getElem? hx))
  · exact h y (Array.mem_of_getElem? hj)

section

variable (h : m.Sound P)
include h

theorem addValue {x : Value} (hx : ∀ i ∈ x.ids, m.Has P i) (span : Span) :
    m.Adds P (m.addValue x span) := by
  have hle : m.Le (m.addValue x span).1 := { Le.refl m with values := by simp [Module.addValue] }
  refine ⟨⟨{ h.everyId hle with values := ?_ }, h.dense.addValue span x, h.builtins, h.noDecl,
    h.marks⟩, hle, lt_size_push h.dense.values x⟩
  exact forall_mem_push (h.everyId hle).values fun i hi => (hx i hi).mono hle

theorem addLine {x : Line} (hx : ∀ i ∈ x.ids, m.Has P i) (span : Span) :
    m.Adds P (m.addLine x span) := by
  have hle : m.Le (m.addLine x span).1 := { Le.refl m with lines := by simp [Module.addLine] }
  refine ⟨⟨{ h.everyId hle with lines := ?_ }, h.dense.addLine span x, h.builtins, h.noDecl,
    h.marks⟩, hle, lt_size_push h.dense.lines x⟩
  exact forall_mem_push (h.everyId hle).lines fun i hi => (hx i hi).mono hle

theorem addBlock (span : Span) : m.Adds P (m.addBlock span) := by
  have hle : m.Le (m.addBlock span).1 := { Le.refl m with blocks := by simp [Module.addBlock] }
  refine ⟨⟨{ h.everyId hle with blocks := ?_ }, h.dense.addBlock span, h.builtins, h.noDecl,
    h.marks⟩, hle, lt_size_push h.dense.blocks _⟩
  refine forall_mem_push (h.everyId hle).blocks fun i hi => ?_
  rw [mem_singleton.1 hi]
  exact h.has_zero.2.1.mono hle

theorem addLocal {x : Local} (hx : ∀ i ∈ x.ids, m.Has P i) (span : Span) :
    m.Adds P (m.addLocal x span) := by
  have hle : m.Le (m.addLocal x span).1 := { Le.refl m with locals := by simp [Module.addLocal] }
  refine ⟨⟨{ h.everyId hle with locals := ?_ }, h.dense.addLocal span x, h.builtins, h.noDecl,
    fun y hy => ?_⟩, hle, lt_size_push h.dense.locals x⟩
  · exact forall_mem_push (h.everyId hle).locals fun i hi => (hx i hi).mono hle
  · obtain ⟨z, hz, hdecl⟩ := h.marks y hy
    exact ⟨z, Kept.push _ _ hz, hdecl⟩

theorem markLocal {l : LocalId} {y : Local} (hl : m.locals[l.index]? = some y)
    (hdecl : y.decl = 0) (x : Marks) :
    ({ m with localMarks := Module.mark m.localMarks l x } : Module).Sound P ∧
      m.Le { m with localMarks := Module.mark m.localMarks l x } := by
  have hle : m.Le { m with localMarks := mark m.localMarks l x } := { Le.refl m with }
  refine ⟨⟨{ h.everyId hle with localMarks := ?_ }, { h.dense with }, h.builtins, h.noDecl, ?_⟩,
    hle⟩
  · exact forall_mem_cons.2 ⟨(Array.getElem?_eq_some_iff.1 hl).1, (h.everyId hle).localMarks⟩
  · exact forall_mem_cons.2 ⟨⟨y, hl, hdecl⟩, h.marks⟩

theorem addItem {x : Item} (hx : ∀ i ∈ x.ids, m.Has P i) :
    (m.addItem x).1.Sound P ∧ m.Le (m.addItem x).1 := by
  have hle : m.Le (m.addItem x).1 := { Le.refl m with }
  have hids := h.everyId hle
  have hdecl : (m.addItem x).1.Has P x.decl.any := (hx _ mem_cons_self).mono hle
  refine ⟨⟨{ hids with items := ?_, itemOrder := fun d hd => ?_ }, Lowering.dense_addItem h.dense x,
    h.builtins, h.noDecl, h.marks⟩, hle⟩
  · refine forall_mem_push hids.items fun i hi => ?_
    rcases mem_cons.1 hi with rfl | hi
    · exact hdecl
    · exact (hx i hi).mono hle
  · replace hd : d ∈ if (m.item? x.decl).isSome then m.itemOrder else m.itemOrder ++ [x.decl] := hd
    split at hd
    · exact hids.itemOrder d hd
    · rcases mem_append.1 hd with hd | hd
      · exact hids.itemOrder d hd
      · rw [mem_singleton.1 hd]
        exact hdecl

theorem modifyItem {f : Item → Item}
    (hf : ∀ x : Item, (∀ i ∈ x.ids, m.Has P i) → ∀ i ∈ (f x).ids, m.Has P i) (k : Nat) :
    (m.modifyItem k f).Sound P ∧ m.Le (m.modifyItem k f) := by
  have hle : m.Le (m.modifyItem k f) := { Le.refl m with }
  have hitems : ∀ x ∈ m.items.modify k (fun x => (x.1, f x.2)), ∀ i ∈ x.1.any :: x.2.ids,
      m.Has P i := by
    refine forall_mem_modify h.ids.items fun x hx i hi => ?_
    rcases mem_cons.1 hi with rfl | hi
    · exact hx _ mem_cons_self
    · exact hf x.2 (fun i hi => hx i (mem_cons_of_mem _ hi)) i hi
  exact ⟨⟨{ h.everyId hle with items := fun x hx i hi => (hitems x hx i hi).mono hle },
    Lowering.dense_modifyItem h.dense k f, h.builtins, h.noDecl, h.marks⟩, hle⟩

theorem modifyBlock {f : Block → Block}
    (hf : ∀ x : Block, (∀ i ∈ x.ids, m.Has P i) → ∀ i ∈ (f x).ids, m.Has P i) (b : BlockId) :
    (m.modifyBlock b f).Sound P ∧ m.Le (m.modifyBlock b f) := by
  have hsize : (m.blocks.modify b.index f).size = m.blocks.size := Array.size_modify ..
  have hle : m.Le (m.modifyBlock b f) := { Le.refl m with blocks := Nat.le_of_eq hsize.symm }
  refine ⟨⟨{ h.everyId hle with blocks := ?_ },
    { h.dense with blocks := hsize.trans h.dense.blocks }, h.builtins, h.noDecl, h.marks⟩, hle⟩
  exact fun x hx i hi => (forall_mem_modify h.ids.blocks hf x hx i hi).mono hle

theorem onTypes (hknown : ∀ i ∈ known, m.Has P i) {T : TypeTable} {i : TypeId}
    (hT : TypeTable.Makes known m.types T i) :
    m.Adds P ({ m with types := T }, i) := by
  have hle : m.Le { m with types := T } := { Le.refl m with types := hT.size_le }
  refine ⟨⟨{ h.everyId hle with types := fun x hx => ?_ }, { h.dense with },
    Nat.le_trans h.builtins hT.size_le, h.noDecl, h.marks⟩, hle, ?_⟩
  · rcases hT.ids x hx with hx | hx | ⟨j, rfl, hj⟩
    · exact (h.ids.types x hx).mono hle
    · exact (hknown x hx).mono hle
    · exact hj
  · rcases hT.index with hi | hi | hi
    · exact (hknown _ hi).mono hle
    · exact (h.ids.types _ hi).mono hle
    · exact hi

end

end Code.Module.Sound

end UnitCheck
