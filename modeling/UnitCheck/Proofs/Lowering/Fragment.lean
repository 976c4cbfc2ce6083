import UnitCheck.Proofs.Lowering.Owned

/-!
# Fragments of lowered code

What lowering makes between two positions is a fragment of the module. `Fragment xs p q L vs bs`
says that everything in it is proper, and that all of its values are used once and all of its lines
stand somewhere, but for what is still open: the lines `L`, the values `vs` and the blocks `bs` have
no user yet. Fragments that follow each other are one fragment (`Fragment.append`), and a new node
takes what is open as its operands (`Fragment.value`, `Fragment.line`, `Fragment.block`,
`Fragment.item`).

`xs` are the sites of the program that the fragment was made of: its items have the declarations of
some of them, and so have its slots. If all is clean, every function among the sites has an item.
-/

namespace UnitCheck

open List

/-- Something holds of every number behind `a` and up to `b`. -/
def Between (P : Nat → Prop) (a b : Nat) : Prop := ∀ ⦃k : Nat⦄, a < k → k ≤ b → P k

namespace Between

variable {P Q : Nat → Prop} {a b c : Nat}

theorem empty (a : Nat) : Between P a a := fun _ hlt hle => absurd hle (Nat.not_le.2 hlt)

theorem trans (h : Between P a b) (h' : Between P b c) : Between P a c := fun k hlt hle =>
  (Nat.lt_or_ge b k).elim (fun hb => h' hb hle) fun hb => h hlt hb

theorem mono (h : Between P a b) (hPQ : ∀ k, P k → Q k) : Between Q a b :=
  fun k hlt hle => hPQ k (h hlt hle)

theorem one (h : P (a + 1)) : Between P a (a + 1) := fun k hlt hle => by
  obtain rfl : k = a + 1 := by omega
  exact h

theorem succ (h : Between P a b) (hb : P (b + 1)) : Between P a (b + 1) := h.trans (one hb)

end Between

namespace Lowering

open Code Syntax
open Resolution (Site declAt)

/-! ## Operands and parts -/

theorem branchOperands_perm (m : Module) (branches : List (ValueId × BlockId)) :
    (m.branchOperands branches).Perm
      (branches.map Prod.fst ++ (branches.map Prod.snd).flatMap m.blockOperands) := by
  induction branches with
  | nil => exact .nil
  | cons x branches ih =>
    show (x.1 :: (m.blockOperands x.2 ++ m.branchOperands branches)).Perm
      (x.1 :: (branches.map Prod.fst ++ (m.blockOperands x.2 ++ _)))
    refine .cons _ ((ih.append_left _).trans ?_)
    rw [← append_assoc, ← append_assoc]
    exact perm_append_comm.append_right _

theorem operandsOf_perm (m : Module) (x : Value) :
    (m.operandsOf x).Perm (x.slots ++ x.blocks.flatMap m.blockOperands) := by
  cases x with
  | ifElse chain => exact branchOperands_perm ..
  | _ => simp [Module.operandsOf, Value.slots, Value.blocks]

/-! ## Fragments -/

section

variable (clean : Prop) (isFunc : DeclId → Prop) (c : Context) (m : Module)

def openOperands (p q : Pos) (L : List LineId) (vs : List ValueId) (bs : List BlockId) :
    List ValueId :=
  m.lineOperands L ++ vs ++ bs.flatMap m.blockOperands ++
    (itemsIn m p q).flatMap fun x => m.bodyOperands x.2

def declsIn (p q : Pos) : List DeclId :=
  ((slice m.locals (p.locals + 1) (q.locals + 1)).map Local.decl).filter Id.isValid

/-- Declarations are those of sites, each of a site of its own. -/
def Sited (ds : List DeclId) (sites : List Site) : Prop :=
  (ds.map some).Subperm (sites.map (declAt c.tree))

/-- What was made between two positions. -/
structure Fragment (sites : List Site) (p q : Pos) (L : List LineId) (vs : List ValueId)
    (bs : List BlockId) : Prop extends Owned m p q L vs bs where
  values : Between (fun k => ∃ x, m.value? ⟨k⟩ = some x ∧ m.ProperValue clean isFunc x ∧
    ∀ w ∈ m.operandsOf x, w.index < k) p.values q.values
  lines : Between (fun k => ∃ x, m.line? ⟨k⟩ = some x ∧ m.ProperLine x) p.lines q.lines
  blocks : Between (fun k => ∃ x, m.block? ⟨k⟩ = some x ∧ m.ProperBlock ⟨k⟩ x) p.blocks q.blocks
  locals : Between (fun k => ∃ x, m.local? ⟨k⟩ = some x ∧
    (x.type.isValid = true → m.types.Closed clean x.type)) p.locals q.locals
  items : ∀ x ∈ itemsIn m p q, m.ProperItem clean x.2
  listed : ∀ i ∈ L, (m.line? i).isSome = true
  meets : m.Meets (openOperands m p q L vs bs) (idsIn p.values q.values)
  placed : Between (fun k => ⟨k⟩ ∈ L ∨ (∃ b ∈ bs, ⟨k⟩ ∈ m.linesOf b) ∨ m.Places ⟨k⟩) p.lines q.lines
  decls : Sited c ((itemsIn m p q).map Prod.fst) sites
  slots : Sited c (declsIn m p q) sites
  funcs : clean → ∀ r, .func r ∈ sites → ∃ x ∈ itemsIn m p q,
    declAt c.tree (.func r) = some x.1 ∧ x.2.func.isSome = true

end

namespace Sited

variable {c : Context} {ds ds' : List DeclId} {sites sites' : List Site}

theorem append (h : Sited c ds sites) (h' : Sited c ds' sites') :
    Sited c (ds ++ ds') (sites ++ sites') := by
  rw [Sited, map_append, map_append]
  exact .append h h'

theorem mono (h : Sited c ds sites) (hsub : sites.Subperm sites') : Sited c ds sites' := by
  obtain ⟨xs, hperm, hsub⟩ := hsub
  exact .trans h ⟨_, hperm.map _, hsub.map _⟩

theorem nodup (h : Sited c ds sites) (hnodup : (sites.map (declAt c.tree)).Nodup) : ds.Nodup := by
  obtain ⟨xs, hperm, hsub⟩ := h
  exact .of_map some (hperm.nodup_iff.1 (hnodup.sublist hsub))

theorem one {d : DeclId} {site : Site} (h : declAt c.tree site = some d) :
    Sited c ([d].filter Id.isValid) [site] := by
  rw [Sited, map_singleton, h]
  exact (filter_sublist.map some).subperm

end Sited

namespace Fragment

variable {clean : Prop} {isFunc : DeclId → Prop} {c : Context} {t : State}
    {sites sites' : List Site}
  {p q r : Pos} {L L' : List LineId} {vs vs' : List ValueId} {bs bs' : List BlockId}

theorem count_openOperands (m : Module) (w : ValueId) :
    (openOperands m p q L vs bs).count w = (m.lineOperands L).count w + vs.count w +
      (bs.flatMap m.blockOperands).count w +
      ((itemsIn m p q).flatMap fun x => m.bodyOperands x.2).count w := by
  rw [openOperands, count_append, count_append, count_append]

theorem nil (p : Pos) : Fragment clean isFunc c t.module [] p p [] [] [] := by
  have hitems : itemsIn t.module p p = [] := slice_self ..
  refine ⟨.nil _ p, .empty _, .empty _, .empty _, .empty _, ?_, nofun, ?_, .empty _, ?_, ?_, nofun⟩
  · rw [hitems]
    nofun
  · rw [openOperands, hitems, idsIn_self]
    exact .nil
  · rw [hitems]
    exact .refl _
  · rw [declsIn, slice_self]
    exact .refl _

theorem absent (p : Pos) : Fragment clean isFunc c t.module [] p p [] [0] [] := by
  have h : Fragment clean isFunc c t.module [] p p [] [] [] := .nil p
  refine { (Owned.absent t.module p).1, h with meets := fun w hw => ?_ }
  have hmeets := h.meets w hw
  rw [count_openOperands] at hmeets ⊢
  rw [count_zero hw]
  exact hmeets

theorem noBlock (p : Pos) : Fragment clean isFunc c t.module [] p p [] [] [0] :=
  { (Owned.absent t.module p).2, (nil p : Fragment clean isFunc c t.module [] p p [] [] []) with
    placed := .empty _ }

section

variable (h : Fragment clean isFunc c t.module sites p q L vs bs)
include h

theorem append (h' : Fragment clean isFunc c t.module sites' q r L' vs' bs') :
    Fragment clean isFunc c t.module (sites ++ sites') p r (L ++ L') (vs ++ vs') (bs ++ bs') := by
  have hitems := itemsIn_append (m := t.module) h.le h'.le
  refine
    { h.toOwned.append h'.toOwned with
      values := h.values.trans h'.values
      lines := h.lines.trans h'.lines
      blocks := h.blocks.trans h'.blocks
      locals := h.locals.trans h'.locals
      items := ?_
      listed := forall_mem_append.2 ⟨h.listed, h'.listed⟩
      meets := fun w hw => ?_
      placed := ?_
      decls := ?_
      slots := ?_
      funcs := fun hclean x hx => ?_ }
  · rw [← hitems]
    exact forall_mem_append.2 ⟨h.items, h'.items⟩
  · -- a value is open in one of the two, or used in it
    have hw1 := h.meets w hw
    have hw2 := h'.meets w hw
    rw [count_openOperands] at hw1 hw2 ⊢
    rw [← idsIn_append h.le.values h'.le.values, ← hitems, Module.lineOperands_append,
      Module.operandCount_append]
    simp only [count_append, flatMap_append]
    omega
  · refine .trans (h.placed.mono fun k hk => ?_) (h'.placed.mono fun k hk => ?_)
    · rcases hk with hk | ⟨b, hb, hk⟩ | hk
      · exact .inl (mem_append_left _ hk)
      · exact .inr (.inl ⟨b, mem_append_left _ hb, hk⟩)
      · exact .inr (.inr hk)
    · rcases hk with hk | ⟨b, hb, hk⟩ | hk
      · exact .inl (mem_append_right _ hk)
      · exact .inr (.inl ⟨b, mem_append_right _ hb, hk⟩)
      · exact .inr (.inr hk)
  · rw [← hitems, map_append]
    exact h.decls.append h'.decls
  · have hslice := slice_append (a := t.module.locals) (Nat.succ_le_succ h.le.locals)
      (Nat.succ_le_succ h'.le.locals)
    rw [declsIn, ← hslice, map_append, filter_append]
    exact h.slots.append h'.slots
  · rw [← hitems]
    rcases mem_append.1 hx with hx | hx
    · obtain ⟨y, hy, hfunc⟩ := h.funcs hclean x hx
      exact ⟨y, mem_append_left _ hy, hfunc⟩
    · obtain ⟨y, hy, hfunc⟩ := h'.funcs hclean x hx
      exact ⟨y, mem_append_right _ hy, hfunc⟩

theorem widen (hsub : sites.Subperm sites')
    (hfuncs : clean → ∀ r, .func r ∈ sites' → .func r ∈ sites) :
    Fragment clean isFunc c t.module sites' p q L vs bs :=
  { h with
    decls := h.decls.mono hsub
    slots := h.slots.mono hsub
    funcs := fun hclean x hx => h.funcs hclean x (hfuncs hclean x hx) }

theorem index_le {w : ValueId}
    (hw : w ∈ vs ++ bs.flatMap t.module.blockOperands) : w.index ≤ q.values := by
  by_cases hvalid : w.isValid = true
  · refine (mem_idsIn.1 (h.meets.mem ?_ hvalid)).2
    rw [openOperands, append_assoc (t.module.lineOperands L)]
    exact mem_append_left _ (mem_append_right _ hw)
  · have hzero : w.index = 0 := by simpa [Id.isValid] using hvalid
    omega

end

/-! ### New nodes -/

variable {span : Span} {x : Local}

theorem value (h : Fragment clean isFunc c t.module sites p q L vs bs) {x : Value}
    (hx : HasValue t q x span) (hproper : t.module.ProperValue clean isFunc x)
    (hslots : x.slots.Perm vs) (hblocks : x.blocks.Perm bs) :
    Fragment clean isFunc c t.module sites p q.addValue L [q.value] [] := by
  have hops : (t.module.operandsOf x).Perm (vs ++ bs.flatMap t.module.blockOperands) :=
    (operandsOf_perm ..).trans (hslots.append (hblocks.flatMap_right _))
  refine
    { h.toOwned.value hx hslots hblocks, h with
      values := h.values.succ ⟨x, hx.value?, hproper, fun w hw =>
        Nat.lt_succ_of_le (h.index_le (hops.subset hw))⟩
      meets := fun w hw => ?_
      placed := h.placed.mono fun k hk => ?_ }
  · have hmeets := h.meets w hw
    have hoperands : t.module.operands q.value = t.module.operandsOf x := by
      rw [Module.operands, hx.value?]
      rfl
    have hids : idsIn p.values q.addValue.values = idsIn p.values q.values ++ [q.value] :=
      idsIn_succ h.le.values
    have hitems : itemsIn t.module p q.addValue = itemsIn t.module p q := rfl
    have hnil : t.module.operandCount [] w = 0 := rfl
    rw [count_openOperands] at hmeets ⊢
    rw [hids, Module.operandCount_append, Module.operandCount_cons, hoperands, hitems,
      count_append, hops.count_eq, count_append, flatMap_nil, count_nil]
    omega
  · rcases hk with hk | ⟨b, hb, hk⟩ | hk
    · exact .inl hk
    · exact .inr (.inr (.value hx.value? (hblocks.symm.subset hb) hk))
    · exact .inr (.inr hk)

theorem line (h : Fragment clean isFunc c t.module sites p q L vs []) {x : Line}
    {made : Bool} (hx : HasLine t q x span made) (hproper : t.module.ProperLine x)
    (hops : x.operands.Perm vs) :
    Fragment clean isFunc c t.module sites p q.addLine (L ++ [q.line]) [] [] := by
  refine
    { h.toOwned.line hx hops, h with
      lines := h.lines.succ ⟨x, hx.line?, hproper⟩
      listed := forall_mem_append.2 ⟨h.listed, fun i hi => ?_⟩
      meets := fun w hw => ?_
      placed := .succ (h.placed.mono fun k hk => hk.imp_left fun hk => mem_append_left _ hk)
        (.inl (mem_append_right _ mem_cons_self)) }
  · rw [mem_singleton.1 hi, hx.line?]
    rfl
  · have hmeets := h.meets w hw
    rw [count_openOperands] at hmeets ⊢
    rw [Module.lineOperands_append, hx.lineOperands, count_append, hops.count_eq]
    show List.count w (idsIn p.values q.values) = _ + List.count w [] + _ + _ + _
    rw [hmeets]
    rfl

/-- A block takes the lines that follow its creation, and its own value. -/
theorem block {v : ValueId} (h : Fragment clean isFunc c t.module sites p.addBlock q L [v] [])
    {span : Span} (hx : HasBlock t p ⟨L, v⟩ span) :
    Fragment clean isFunc c t.module sites p q [] [] [p.block] := by
  refine
    { h.toOwned.block hx, h with
      blocks := .trans (.one ⟨_, hx.block?, ⟨span, hx.2⟩, h.listed⟩) h.blocks
      listed := nofun
      meets := fun w hw => ?_
      placed := h.placed.mono fun k hk => ?_ }
  · have hmeets : (idsIn p.values q.values).count w = (openOperands t.module p q L [v] []).count w +
        t.module.operandCount (idsIn p.values q.values) w := h.meets w hw
    have hnil : t.module.lineOperands [] = [] := rfl
    rw [count_openOperands] at hmeets ⊢
    rw [hmeets, flatMap_singleton, hx.blockOperands, count_append, flatMap_nil, hnil,
      count_nil]
    dsimp only
    omega
  · rcases hk with hk | ⟨b, hb, -⟩ | hk
    · -- the open lines are those of the block
      refine .inr (.inl ⟨p.block, mem_cons_self, ?_⟩)
      rw [Module.linesOf, hx.block?]
      exact hk
    · cases hb
    · exact .inr (.inr hk)

/-- A slot changes nothing else. `xs` has its site, if there is one. -/
theorem slot (h : Fragment clean isFunc c t.module sites p q L vs bs)
    (hx : HasLocal t q x span)
    (hclosed : x.type.isValid = true → t.module.types.Closed clean x.type)
    (xs : List Site) (hdecl : Sited c ([x.decl].filter Id.isValid) xs) (hfunc : ∀ r, .func r ∉ xs) :
    Fragment clean isFunc c t.module (sites ++ xs) p q.addLocal L vs bs := by
  refine
    { h.toOwned.slot, h.widen (sublist_append_left sites xs).subperm fun _ r hr =>
        (mem_append.1 hr).resolve_right (hfunc r) with
      locals := h.locals.succ ⟨x, hx.local?, hclosed⟩
      slots := ?_ }
  have hslice := slice_succ hx.1 (Nat.succ_le_succ h.le.locals)
  show Sited c (((slice _ _ (q.locals + 1 + 1)).map _).filter _) _
  rw [hslice, map_append, filter_append]
  exact h.slots.append hdecl

theorem temp (h : Fragment clean isFunc c t.module sites p q L vs bs)
    (hx : HasLocal t q x span)
    (hclosed : x.type.isValid = true → t.module.types.Closed clean x.type)
    (hdecl : x.decl = 0) : Fragment clean isFunc c t.module sites p q.addLocal L vs bs := by
  have := h.slot hx hclosed [] (by rw [hdecl]; exact .refl _) nofun
  rwa [append_nil] at this

theorem item {x : Item} {d : DeclId} {site : Site}
    (h : Fragment clean isFunc c t.module sites p.addItem q [] [] bs) (hx : HasItem t p (d, x))
    (hproper : t.module.ProperItem clean x) (hbodies : x.bodies = bs)
    (hdecl : declAt c.tree site = some d) (hfunc : ∀ r, site = .func r → x.func.isSome = true) :
    Fragment clean isFunc c t.module (site :: sites) p q [] [] [] := by
  have hitems := itemsIn_addItem hx h.le.items
  have hops : t.module.bodyOperands x = bs.flatMap t.module.blockOperands := by
    rw [← hbodies, Item.bodies, Module.bodyOperands]
    cases x.func <;> simp
  refine
    { h.toOwned.item hx (.of_eq hbodies), h with
      items := ?_
      meets := fun w hw => ?_
      placed := h.placed.mono fun k hk => ?_
      decls := ?_
      slots := h.slots.mono (sublist_cons_self ..).subperm
      funcs := fun hclean r hr => ?_ }
  · rw [hitems]
    exact forall_mem_cons.2 ⟨hproper, h.items⟩
  · have hmeets : (idsIn p.values q.values).count w =
        (openOperands t.module p.addItem q [] [] bs).count w +
        t.module.operandCount (idsIn p.values q.values) w := h.meets w hw
    rw [count_openOperands] at hmeets ⊢
    rw [hmeets, hitems, flatMap_cons, count_append, hops, flatMap_nil, count_nil]
    omega
  · rcases hk with hk | ⟨b, hb, hk⟩ | hk
    · cases hk
    · -- the lines of a body belong to the function of the item
      rw [← hbodies, Item.bodies, Option.mem_toList, Option.map_eq_some_iff] at hb
      obtain ⟨f, hf, rfl⟩ := hb
      exact .inr (.inr (.func (Array.mem_toList_iff.2 (Array.mem_of_getElem? hx)) hf hk))
    · exact .inr (.inr hk)
  · rw [hitems, Sited, map_cons, map_cons, map_cons, hdecl]
    exact (subperm_cons _).2 h.decls
  · rw [hitems]
    rcases mem_cons.1 hr with rfl | hr
    · exact ⟨_, mem_cons_self, hdecl, hfunc r rfl⟩
    · obtain ⟨y, hy, hdecl, hfunc⟩ := h.funcs hclean r hr
      exact ⟨y, mem_cons_of_mem _ hy, hdecl, hfunc⟩

end Fragment

end Lowering

end UnitCheck
