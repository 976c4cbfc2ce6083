import UnitCheck.Proofs.Resolution.Collect

/-!
# Looking names up agrees with lexical scoping

If the scopes from the current one outwards bind what a list of frames says (`Sees`), then the
table's answers are those of a use with these frames: the value that is found (`lookupValue_eq`),
the type (`lookupType_eq`), and all functions with a name (`functions_eq`).

Scopes hold declarations and frames hold sites. The two are compared through the declarations that
the tree records; that variables are told apart by them is what `Distinct` asks for.
-/

namespace UnitCheck.Resolution

open List Scope.Table Syntax

/-- The scopes from one outwards bind what the frames say. -/
def Sees (F : State) : Option ScopeId → List Frame → Prop
  | p, [] => p = none
  | p, f :: env => ∃ i sc, p = some i ∧ F.table.get? i = some sc ∧
      (∀ q, sc.parent = some q → q.index < i.index) ∧ Lists F.tree f sc ∧ Sees F sc.parent env

variable {F : State} {t : Tree} {name : NameId} {p : Option ScopeId} {env : List Frame}

theorem Sees.exists_chain (h : Sees F p env) :
    ∃ scs, F.table.Chain p scs ∧ List.Forall₂ (Lists F.tree) env scs := by
  induction env generalizing p with
  | nil => exact ⟨[], h, .nil⟩
  | cons f env ih =>
    obtain ⟨i, sc, rfl, hget, hless, hlists, hrest⟩ := h
    obtain ⟨scs, hchain, hall⟩ := ih hrest
    exact ⟨sc :: scs, ⟨i, rfl, hget, hless, hchain⟩, .cons hlists hall⟩

/-! ## One scope -/

theorem latest?_filter (bs : List Binder) (q : Site → Bool) :
    latest? name (bs.filter fun b => q b.2) =
      (bs.reverse.find? fun b => b.1 == name && q b.2).map Prod.snd := by
  rw [latest?, List.getLast?_map, filter_filter, ← List.head?_reverse, ← filter_reverse,
    List.head?_filter]

variable {vs : Bindings} {bs : List Binder}

/-- Newest entries answer as latest bindings do, if the tests on entries and sites agree. -/
theorem find?_of_map_key
    (h : vs.map key = (bs.map (keyIn t)).reverse) (visible : Entry → Bool) (q : Site → Bool)
    (hagree : ∀ b ∈ bs, ∀ e : Entry, declAt t b.2 = some e.decl → b.2.kind = e.kind →
      visible e = q b.2) : ((vs.of name).find? visible).map (fun e => some e.decl) =
      (latest? name (bs.filter fun b => q b.2)).map (declAt t) := by
  rw [latest?_filter]
  rw [← map_reverse] at h
  replace hagree : ∀ b ∈ bs.reverse, ∀ e : Entry, declAt t b.2 = some e.decl → b.2.kind = e.kind →
      visible e = q b.2 := fun b hb => hagree b (mem_reverse.1 hb)
  generalize bs.reverse = cs at h hagree
  induction cs generalizing vs with
  | nil => rw [map_eq_nil_iff.1 h]; rfl
  | cons b cs ih =>
    obtain ⟨v, vs, rfl, hkey, hrest⟩ := map_eq_cons_iff.1 h
    have ih := ih hrest fun b' hb' => hagree b' (mem_cons_of_mem _ hb')
    simp only [key, keyIn, Prod.mk.injEq] at hkey
    obtain ⟨hname, hdecl, hkind⟩ := hkey
    have hvisible := hagree b mem_cons_self v.2 hdecl.symm hkind.symm
    rw [Bindings.of] at ih ⊢
    rw [List.find?_cons, filter_cons, hname, ← hvisible]
    cases hn : b.1 == name with
    | false => simpa [hn] using ih
    | true =>
      rw [if_pos rfl, map_cons, List.find?_cons]
      cases visible v.2 with
      | true => simp [hdecl]
      | false => simpa using ih

/-- The functions that a scope binds to a name are those of its frame, newest first. -/
theorem functions_of_map_key (h : vs.map key = (bs.map (keyIn t)).reverse) :
    ((vs.of name).filter fun e => e.kind == .function).map (fun e => some e.decl) =
      (((bs.filter fun b => b.1 == name && b.2.kind == .function).map Prod.snd).reverse).map
        (declAt t) := by
  rw [← map_reverse] at h
  rw [← map_reverse, ← filter_reverse]
  generalize bs.reverse = cs at h
  induction cs generalizing vs with
  | nil => rw [map_eq_nil_iff.1 h]; rfl
  | cons b cs ih =>
    obtain ⟨v, vs, rfl, hkey, hrest⟩ := map_eq_cons_iff.1 h
    have ih := ih hrest
    simp only [key, keyIn, Prod.mk.injEq] at hkey
    obtain ⟨hname, hdecl, hkind⟩ := hkey
    rw [Bindings.of] at ih ⊢
    rw [filter_cons, filter_cons, hname, ← hkind]
    cases hn : b.1 == name with
    | false => simpa [hn] using ih
    | true =>
      rw [if_pos rfl, map_cons, filter_cons]
      cases v.2.kind == .function with
      | true => simpa [hdecl] using ih
      | false => simpa using ih

/-! ## All scopes around a use -/

/-- Where scopes and frames agree one by one, their first answers do. -/
theorem findSome?_agree {α β γ : Type} {env : List Frame} {scs : List Scope}
    {R : Frame → Scope → Prop} (h : List.Forall₂ R env scs) {f : Scope → Option α}
    {g : Frame → Option β} {φ : α → γ} {ψ : β → γ}
    (hfg : ∀ fr ∈ env, ∀ sc, R fr sc → (f sc).map φ = (g fr).map ψ) :
    (scs.findSome? f).map φ = (env.findSome? g).map ψ := by
  induction h with
  | nil => rfl
  | @cons fr sc env scs hR hall ih =>
    have hhead := hfg fr mem_cons_self sc hR
    have ih := ih fun fr' hfr' => hfg fr' (mem_cons_of_mem _ hfr')
    rw [List.findSome?_cons, List.findSome?_cons]
    cases hf : f sc with
    | none =>
      rw [hf, Option.map_none, eq_comm, Option.map_eq_none_iff] at hhead
      rw [hhead]
      exact ih
    | some a =>
      rw [hf, Option.map_some, eq_comm, Option.map_eq_some_iff] at hhead
      obtain ⟨b, hb, hψ⟩ := hhead
      rw [hb]
      exact congrArg some hψ.symm

/-- Variables that are bound and variables that are completed are told apart by their
declarations. -/
def Distinct (t : Tree) (env : List Frame) (done : List Site) : Prop :=
  ∀ f ∈ env, ∀ b ∈ f.values, ∀ x ∈ done, declAt t b.2 = declAt t x → b.2 = x

/-- A state of the second walk in the scope of the first frame, with some variables completed. -/
structure Stands (F : State) (env : List Frame) (done : List Site) (s : State) : Prop where
  scopes : s.table.scopes = F.table.scopes
  current : s.table.current.index < s.table.size
  sees : Sees F (some s.table.current) env
  completed : ∀ d, d ∈ s.completed ↔ ∃ x ∈ done, declAt F.tree x = some d
  distinct : Distinct F.tree env done

namespace Stands

variable {done : List Site} {s : State}

theorem exists_enclosing (h : Stands F env done s) :
    ∃ scs, s.table.enclosing = scs.map some ∧ List.Forall₂ (Lists F.tree) env scs := by
  obtain ⟨scs, hchain, hall⟩ := h.sees.exists_chain
  have hget : ∀ i, s.table.get? i = F.table.get? i := fun i => by
    rw [get?, h.scopes]
    rfl
  refine ⟨scs, enclosing_eq ?_ h.current, hall⟩
  have hlift : ∀ (scs : List Scope) p, F.table.Chain p scs → s.table.Chain p scs := by
    intro scs
    induction scs with
    | nil => exact fun p hp => hp
    | cons sc scs ih =>
      rintro p ⟨i, rfl, hi, hless, hrest⟩
      exact ⟨i, rfl, (hget i).trans hi, hless, ih _ hrest⟩
  exact hlift scs _ hchain

variable {m : Mention}

theorem sees_eq (h : Stands F env done s) {f : Frame} (hf : f ∈ env) {b : Binder}
    (hb : b ∈ f.values)
    {e : Entry} (hdecl : declAt F.tree b.2 = some e.decl) (hkind : b.2.kind = e.kind) : s.sees e =
    (Use.mk m name env done).sees b.2 := by
  have hmem : s.completed.contains e.decl = done.contains b.2 := by
    rw [Bool.eq_iff_iff, contains_iff_mem, contains_iff_mem, h.completed]
    constructor
    · rintro ⟨x, hx, hx'⟩
      rwa [h.distinct f hf b hb x hx (hdecl.trans hx'.symm)]
    · exact fun hx => ⟨b.2, hx, hdecl⟩
  simp only [State.sees, Use.sees, hmem, ← hkind]
  by_cases hvar : b.2.kind = .var
  · simp [hvar]
  · simp [hvar]

theorem lookupValue_eq (h : Stands F env done s) (name : NameId) (hm : ∀ n, m ≠ .type n) :
    ∃ found, s.table.lookupValue name s.sees = .ok found ∧
      found.map (fun e => some e.decl) = (Use.mk m name env done).site?.map (declAt F.tree) := by
  obtain ⟨scs, henclosing, hall⟩ := h.exists_enclosing
  refine ⟨_, by rw [Scope.Table.lookupValue, henclosing, Scope.Table.firstOf_map_some], ?_⟩
  refine findSome?_agree hall fun f hf sc hlists => ?_
  have hvisible : (Use.mk m name env done).visible f =
      f.values.filter fun b => (Use.mk m name env done).sees b.2 := by
    cases m with
    | type n => exact absurd rfl (hm n)
    | value n | callee c n => rfl
  rw [hvisible]
  exact find?_of_map_key hlists.values _ _ fun b hb e hdecl hkind => h.sees_eq hf hb hdecl hkind

theorem lookupType_eq (h : Stands F env done s) (name : NameId) (n : TypeNode) :
    ∃ found, s.table.lookupType name = .ok found ∧ found.map (fun e => some e.decl) =
        (Use.mk (.type n) name env done).site?.map (declAt F.tree) := by
  obtain ⟨scs, henclosing, hall⟩ := h.exists_enclosing
  refine ⟨_, by rw [lookupType, henclosing, firstOf_map_some], ?_⟩
  refine findSome?_agree hall fun f _ sc hlists => ?_
  have hfound : ((sc.types.of name).find? fun _ => true).map (fun e => some e.decl) =
      (latest? name (f.types.filter fun _ => true)).map (declAt F.tree) :=
    find?_of_map_key hlists.types _ (fun _ => true) fun _ _ _ _ _ => rfl
  rwa [← List.head?_filter, filter_eq_self.2 fun _ _ => rfl,
    filter_eq_self.2 fun _ _ => rfl] at hfound

theorem functions_eq (h : Stands F env done s) (name : NameId) (m : Mention) :
    ∃ found, s.table.functions name = .ok found ∧ found.map (fun e => some e.decl) =
        (Use.mk m name env done).functions.map (declAt F.tree) := by
  obtain ⟨scs, henclosing, hall⟩ := h.exists_enclosing
  refine ⟨_, functions_of_enclosing henclosing name, ?_⟩
  unfold Use.functions
  clear henclosing h
  induction hall with
  | nil => rfl
  | cons hlists _ ih =>
    rw [flatMap_cons, flatMap_cons, map_append, map_append, ih,
      functions_of_map_key hlists.values]

end Stands

end UnitCheck.Resolution
