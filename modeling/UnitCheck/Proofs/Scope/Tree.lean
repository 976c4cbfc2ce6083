import UnitCheck.Proofs.Scope.Table

/-!
# The scopes of a table form a tree

A table starts with its root and changes by the operations of `Op` only. In every table that they
lead to, the links between scopes are those of a tree whose scopes are numbered as they were opened
(`reachable_forms_tree`).

Every operation keeps a table linked (`Linked.run`), and in a linked table identifiers fall on the
way outwards, so the way ends, and it can only end at the root (`Linked.exists_chain`).
-/

namespace UnitCheck.Scope.Table

open Run (Gives)

inductive Op
  | push (kind : ScopeKind) (modifier : Modifier) (span : Span)
  | pop
  | goTo (i : ScopeId)
  | insertValue (name : NameId) (e : Entry)
  | insertType (name : NameId) (e : Entry)
  | insertMember (name : NameId) (e : Entry)
  | declare (d : Decl)

def Op.run : Op → Run Table Unit
  | push kind modifier span => discard (Table.push kind modifier span)
  | pop => Table.pop
  | goTo i => discard (Table.goTo i)
  | insertValue name e => Table.insertValue name e
  | insertType name e => discard (Table.insertType name e)
  | insertMember name e => discard (Table.insertMember name e)
  | declare d => discard (Table.declare d)

/-- The tables that changes lead to, from a table that knows the built-in types only. -/
inductive Reachable : Table → Prop
  | initial (names : NameTable) : Reachable (.initial names)
  | step {t t' : Table} (op : Op) : Reachable t → op.run t = .ok () t' → Reachable t'

variable {t t' : Table}

/-! ## What one change keeps -/

theorem pop_root {sc : Scope} (h : t.get? t.current = some sc) (hparent : sc.parent = none) :
    pop t = .error .popRoot t := by
  show EStateM.bind currentScope _ t = _
  rw [EStateM.bind, currentScope_eq h]
  simp only [hparent]
  rfl

/-- A change of a linked table leads to a linked table. Only going back from the root is not
possible. -/
theorem Linked.run (h : t.Linked) (op : Op) : Gives op.run t (fun _ t' => t'.Linked) ∨
      op = .pop ∧ t.current = .root ∧ op.run t = .error .popRoot t := by
  obtain ⟨sc, hsc⟩ := h.exists_current
  cases op with
  | push kind modifier span =>
    exact .inl (.discard ⟨_, _, push_eq hsc kind modifier span, h.opened kind modifier span⟩)
  | pop =>
    cases hparent : sc.parent with
    | some p =>
      have hlt :=
        h.parent?_lt (show t.parent? t.current = some p by rw [parent?, hsc]; exact hparent)
      exact .inl ⟨(), _, pop_eq hsc hparent, h.goTo (Nat.lt_trans hlt.1 hlt.2)⟩
    | none =>
      refine .inr ⟨rfl, ?_, pop_root hsc hparent⟩
      by_contra hne
      obtain ⟨p, hp, -⟩ := h.parent hsc hne
      cases hparent.symm.trans hp
  | goTo i =>
    have hgives : Gives (Table.goTo i) t fun _ t' => t'.Linked := by
      by_cases hi : i.index < t.size
      · exact ⟨_, _, goTo_eq hi, h.goTo hi⟩
      · -- a refused request is reported and moves nothing
        show Gives (if i.index < t.size then _ else _ : Run Table Bool) t _
        rw [if_neg hi]
        exact ⟨false, _, rfl, h.congr rfl rfl⟩
    exact .inl hgives.discard
  | insertValue name e =>
    refine .inl ((gives_insertValue hsc name e).mono fun _ t' hins => ?_)
    exact h.of_modify hins.scopes hins.current (fun _ => rfl) fun _ => rfl
  | insertType name e =>
    refine .inl (.discard ((gives_insertType hsc name e).mono fun _ t' hins => ?_))
    exact h.of_modify hins.scopes hins.current (fun _ => rfl) fun _ => rfl
  | insertMember name e =>
    refine .inl (.discard ((gives_insertMember hsc name e).mono fun _ t' hins => ?_))
    exact h.of_modify hins.scopes hins.current (fun _ => rfl) fun _ => rfl
  | declare d =>
    refine .inl (.discard ((gives_declare hsc d).mono fun _ t' hdecl => ?_))
    exact h.of_modify hdecl.2.scopes hdecl.2.current (parent_bind d _) (children_bind d _)

/-! ## What every sequence of changes keeps -/

theorem Reachable.linked (h : t.Reachable) : t.Linked := by
  induction h with
  | initial names => exact linked_initial names
  | step op _ hrun ih =>
    obtain ⟨_, t', hrun', hlinked⟩ | ⟨-, -, habort⟩ := ih.run op
    · cases hrun.symm.trans hrun'
      exact hlinked
    · cases hrun.symm.trans habort

/-! ## The tree -/

/-- From every scope there is a way outwards, and it ends at the root. -/
theorem Linked.exists_chain (h : t.Linked) {i : ScopeId} (hi : i.index < t.size) :
    ∃ scs, t.Chain (some i) scs ∧ scs.getLast? = t.get? .root := by
  -- identifiers fall on the way outwards
  induction hn : i.index using Nat.strongRecOn generalizing i with
  | ind n ih =>
    obtain ⟨sc, hsc⟩ := exists_get? hi
    by_cases hroot : i = .root
    · subst hroot
      obtain ⟨sc', hsc', hparent⟩ := h.root
      cases hsc.symm.trans hsc'
      refine ⟨[sc], ⟨_, rfl, hsc, fun q hq => ?_, hparent⟩, hsc.symm⟩
      cases hparent.symm.trans hq
    · obtain ⟨p, hp, hlt⟩ := h.parent hsc hroot
      obtain ⟨scs, hchain, hlast⟩ := ih p.index (hn ▸ hlt) (Nat.lt_trans hlt hi) rfl
      refine ⟨sc :: scs, ⟨i, rfl, hsc, fun q hq => ?_, hp ▸ hchain⟩, ?_⟩
      · cases hp.symm.trans hq
        exact hlt
      · cases scs with
        | nil => cases hchain
        | cons sc' scs => rw [List.getLast?_cons_cons, hlast]

/-- What it means that the scopes of a table form a tree, for its links, for the check of the links,
and for what walks along them. -/
structure FormsTree (t : Table) : Prop where
  /-- There is a current scope. -/
  current : ∃ sc, t.get? t.current = some sc
  /-- The root is the only scope without a parent. -/
  parentless : ∀ {i sc}, t.get? i = some sc → (sc.parent = none ↔ i = .root)
  /-- Parents are older than their children. -/
  older : ∀ {i sc p}, t.get? i = some sc → sc.parent = some p → p.index < i.index
  /-- A scope lists the scopes whose parent it is, and no others, in the order of identifiers. -/
  listed : ∀ {p sc}, t.get? p = some sc → sc.children.Pairwise (fun i j => i.index < j.index) ∧
    ∀ i, i ∈ sc.children ↔ ∃ child, t.get? i = some child ∧ child.parent = some p
  /-- The check of the links finds nothing. -/
  valid : t.validate = .ok none
  /-- The way outwards from a scope ends at the root, after as many steps as its identifier
  allows. -/
  ways : ∀ {i : ScopeId}, i.index < t.size → ∃ scs : List Scope, scs.getLast? = t.get? .root ∧
    ∀ n, i.index < n → t.outward n (some i) = scs.map some
  /-- Looking up gets an answer, whatever is looked for. -/
  answers : ∀ name visible, (∃ found, t.lookupValue name visible = .ok found) ∧
    (∃ found, t.lookupType name = .ok found) ∧ ∃ found, t.functions name = .ok found

theorem Linked.formsTree (h : t.Linked) : t.FormsTree where
  current := h.exists_current
  parentless {i sc} hsc := by
    constructor
    · intro hnone
      by_contra hne
      obtain ⟨p, hp, -⟩ := h.parent hsc hne
      cases hnone.symm.trans hp
    · rintro rfl
      obtain ⟨sc', hsc', hnone⟩ := h.root
      cases hsc.symm.trans hsc'
      exact hnone
  older {i sc p} hsc hp :=
    (h.parent?_lt (show t.parent? i = some p by rw [parent?, hsc]; exact hp)).1
  listed {p sc} hsc := by
    refine ⟨h.increasing hsc, fun i => (h.mem_children hsc i).trans ?_⟩
    exact Option.bind_eq_some_iff
  valid := h.validate_eq
  ways {i} hi := by
    obtain ⟨scs, hchain, hlast⟩ := h.exists_chain hi
    refine ⟨scs, hlast, fun n hn => outward_eq hchain fun j hj => ?_⟩
    cases hj
    exact hn
  answers name visible := by
    obtain ⟨scs, hchain, -⟩ := h.exists_chain h.current
    have henclosing := enclosing_eq hchain h.current
    exact ⟨⟨_, (congrArg (firstOf _) henclosing).trans (firstOf_map_some _ scs)⟩,
      ⟨_, (congrArg (firstOf _) henclosing).trans (firstOf_map_some _ scs)⟩,
      _, functions_of_enclosing henclosing name⟩

/-- Whatever is done to a table, its scopes form a tree, and only going back from the root can ever
be impossible. -/
theorem reachable_forms_tree (h : t.Reachable) :
    t.FormsTree ∧ ∀ op : Op, (∃ t', op.run t = .ok () t' ∧ t'.Reachable) ∨
      op = .pop ∧ t.current = .root ∧ op.run t = .error .popRoot t := by
  refine ⟨h.linked.formsTree, fun op => ?_⟩
  obtain ⟨_, t', hrun, -⟩ | habort := h.linked.run op
  · exact .inl ⟨t', hrun, h.step op hrun⟩
  · exact .inr habort

/-- A function with two blocks, a way back to it, a scope that is asked for and does not exist, and
a declaration at the root. -/
theorem reachable_forms_tree_blocks : ∃ t : Table, t.Reachable ∧ t.size = 4 ∧ t.current = .root ∧
    t.FormsTree := by
  have h₀ := Reachable.initial .empty
  have h₁ := h₀.step (.push .function .mutable .zero) rfl
  have h₂ := h₁.step (.push .block .mutable .zero) rfl
  have h₃ := h₂.step .pop rfl
  have h₄ := h₃.step (.push .block .mutable .zero) rfl
  have h₅ := h₄.step (.goTo .root) rfl
  have h₆ := h₅.step (.goTo ⟨7⟩) rfl
  have h₇ := h₆.step (.declare (.fresh .var ⟨1⟩ .zero .default)) rfl
  exact ⟨_, h₇, rfl, rfl, (reachable_forms_tree h₇).1⟩

end UnitCheck.Scope.Table
