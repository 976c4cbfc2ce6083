import UnitCheck.Proofs.Resolution.Annotation
import UnitCheck.Proofs.Scope.Log

/-!
# The first walk builds the scopes of the outline

Collecting a part of a program from a state that is `Ready` for its outline never aborts, and the
state behind it is described by the outline alone (`Collects`):

* every site has a declaration of its own, numbered in program order;
* what the outline binds was added to the current scope, newest first;
* every scope of the outline was opened inside the scope of the region around it and binds exactly
  what the outline says;
* all other annotations and scopes are as before.

What annotations there were before makes no difference: on a tree with other ones the walk builds
the same table and writes the same scopes (`Echoes`).

`Lays P o a` says this of a computation `a` that runs inside region `P`. The outline of a sequence
is the sequence of outlines (`Lays.seq`), so the walk is followed constructor by constructor.
-/

namespace UnitCheck.Resolution

open List Scope.Table Syntax Outline
open Run (Gives)

/-! ## What a scope binds -/

def key (b : NameId × Entry) : NameId × Option DeclId × DeclKind := (b.1, some b.2.decl, b.2.kind)

/-- A binding of a frame, with the declaration that the tree records for its site. -/
def keyIn (t : Tree) (b : Binder) : NameId × Option DeclId × DeclKind :=
  (b.1, declAt t b.2, b.2.kind)

/-- A scope binds what a frame says, newest first. -/
structure Lists (t : Tree) (f : Frame) (sc : Scope) : Prop where
  values : sc.values.map key = (f.values.map (keyIn t)).reverse
  types : sc.types.map key = (f.types.map (keyIn t)).reverse

/-- The scope of a frame is there, inside that of the region around it. Its identifier is at least
`lo`. -/
def Opened (s : State) (lo : Nat) (outer : Region) (f : Frame) : Prop :=
  ∃ i p sc, scopeAt s.tree f.region = some (some i) ∧ lo ≤ i.index ∧ s.table.get? i = some sc ∧
    scopeAt s.tree outer = some (some p) ∧ sc.parent = some p ∧ p.index < i.index ∧
    Lists s.tree f sc

theorem map_keyIn_congr {t t' : Tree} {bs : List Binder}
    (h : ∀ b ∈ bs, declAt t' b.2 = declAt t b.2) : bs.map (keyIn t') = bs.map (keyIn t) :=
  map_congr_left fun b hb => by rw [keyIn, keyIn, h b hb]

/-- The scope that a tree records for a region. -/
def scopeOf (t : Tree) (r : Region) : ScopeId := ((scopeAt t r).getD none).getD .root

/-- What a declaration is in the log of a table: with the number that the tree records for its site,
in the scope that the tree records for its region. -/
def Item.declared (t : Tree) (P : Region) (x : Item) : Declared :=
  ⟨⟨(declAt t x.site).getD 0, x.site.kind, x.span⟩, x.name, scopeOf t (x.region.getD P)⟩

theorem Item.declared_congr {t t' : Tree} {P : Region} {x : Item}
    (hdecl : declAt t' x.site = declAt t x.site)
    (hscope : scopeAt t' (x.region.getD P) = scopeAt t (x.region.getD P)) :
    x.declared t' P = x.declared t P := by
  rw [declared, declared, scopeOf, scopeOf, hdecl, hscope]

/-! ## Before and behind -/

/-- A state in region `P` in which a part of a program with outline `o` can be collected. -/
structure Ready (P : Region) (o : Outline) (s : State) : Prop where
  linked : s.table.Linked
  here : scopeAt s.tree P = some (some s.table.current)
  regions : (P :: o.regions).Nodup
  sites : o.sites.Nodup
  backed : o.Backed s.tree

/-- What collecting a part with outline `o` in region `P` does to a state. -/
structure Collects (P : Region) (o : Outline) (s s' : State) : Prop where
  current : s'.table.current = s.table.current
  names : s'.table.names = s.table.names
  linked : s'.table.Linked
  size : s'.table.size = s.table.size + o.scopes.length
  decls : s'.table.decls.size = s.table.decls.size + o.sites.length
  tags : s'.table.decls.tags = s.table.decls.tags ++ o.sites.map fun x => (x.kind, none)
  numbered : o.sites.map (declAt s'.tree) =
    (List.range' (s.table.decls.size + 1) o.sites.length).map fun n => some ⟨n⟩
  scopes : o.scopes.map (fun x => scopeAt s'.tree x.2.region) =
    (List.range' s.table.size o.scopes.length).map fun n => some (some ⟨n⟩)
  log : s'.table.decls.log =
    (o.items.map (Item.declared s'.tree P)).reverse ++ s.table.decls.log
  bare : s'.tree.bare = s.tree.bare
  decl_eq : ∀ x ∉ o.sites, declAt s'.tree x = declAt s.tree x
  scope_eq : ∀ r ∉ o.regions, scopeAt s'.tree r = scopeAt s.tree r
  note_eq : ∀ p, noteAt s'.tree p = noteAt s.tree p
  kept : ∀ {i sc}, s.table.get? i = some sc → i ≠ s.table.current → s'.table.get? i = some sc
  here : ∀ {sc}, s.table.get? s.table.current = some sc →
    ∃ sc', s'.table.get? s.table.current = some sc' ∧ sc'.parent = sc.parent ∧
      sc'.values.map key = (o.values.map (keyIn s'.tree)).reverse ++ sc.values.map key ∧
      sc'.types.map key = (o.types.map (keyIn s'.tree)).reverse ++ sc.types.map key
  opened : ∀ x ∈ o.scopes, Opened s' s.table.size (x.1.getD P) x.2
  faultsOf : ∀ c ≠ .scopeOverride, s'.table.faultsOf c = s.table.faultsOf c
  accounts : s.table.Accounts → s'.table.Accounts
  completed : s'.completed = s.completed
  impls : s'.impls = s.impls

variable {P : Region} {o o1 o2 : Outline} {s s' s1 s2 : State}

theorem Collects.refl (h : s.table.Linked) : Collects P .empty s s where
  current := rfl
  names := rfl
  linked := h
  size := rfl
  decls := rfl
  tags := (append_nil _).symm
  numbered := rfl
  scopes := rfl
  log := rfl
  bare := rfl
  decl_eq _ _ := rfl
  scope_eq _ _ := rfl
  note_eq _ := rfl
  kept hget _ := hget
  here hget := ⟨_, hget, rfl, rfl, rfl⟩
  opened := nofun
  faultsOf _ _ := rfl
  accounts := id
  completed := rfl
  impls := rfl

namespace Ready

theorem left (h : Ready P (o1 ++ o2) s) : Ready P o1 s :=
  { h with
    regions := h.regions.sublist ((sublist_append_left ..).cons_cons P)
    sites := h.sites.sublist (sublist_append_left ..)
    backed := ⟨fun x hx => h.backed.declared x (mem_append_left _ hx),
      fun r hr => h.backed.marked r (mem_append_left _ hr)⟩ }

theorem notMem_sites (h : Ready P (o1 ++ o2) s) {x : Site} (hx : x ∈ o1.sites) : x ∉ o2.sites :=
  fun hx' => (nodup_append.1 h.sites).2.2 x hx x hx' rfl

theorem notMem_regions (h : Ready P (o1 ++ o2) s) {r : Region} (hr : r ∈ o1.regions) :
    r ∉ o2.regions :=
  fun hr' => (nodup_append.1 (nodup_cons.1 h.regions).2).2.2 r hr r hr' rfl

theorem self_notMem (h : Ready P o s) : P ∉ o.regions := (nodup_cons.1 h.regions).1

theorem right (h : Ready P (o1 ++ o2) s) (h1 : Collects P o1 s s1) : Ready P o2 s1 where
  linked := h1.linked
  here := by
    rw [h1.current, h1.scope_eq P h.left.self_notMem]
    exact h.here
  regions := h.regions.sublist ((sublist_append_right ..).cons_cons P)
  sites := h.sites.sublist (sublist_append_right ..)
  backed := by
    refine ⟨fun x hx => ?_, fun r hr => ?_⟩
    · rw [h1.decl_eq x fun hx' => h.notMem_sites hx' hx]
      exact h.backed.declared x (mem_append_right _ hx)
    · rw [h1.scope_eq r fun hr' => h.notMem_regions hr' hr]
      exact h.backed.marked r (mem_append_right _ hr)

end Ready

variable {lo : Nat} {outer : Region} {f : Frame} {w : Tree} {t : Scope.Table} {d : Decl}
  {site : Site}

/-- A scope that was opened stays as it is while other parts are collected. -/
theorem Opened.later (h : Opened s1 lo outer f)
    (h2 : Collects P o2 s1 s2) (hlo : s1.table.current.index < lo) (hregion : f.region ∉ o2.regions)
    (houter : outer ∉ o2.regions) (hvalues : ∀ b ∈ f.values, b.2 ∉ o2.sites)
    (htypes : ∀ b ∈ f.types, b.2 ∉ o2.sites) : Opened s2 lo outer f := by
  obtain ⟨i, p, sc, hi, hle, hget, hp, hparent, hless, hlists⟩ := h
  have hne : i ≠ s1.table.current := fun heq => absurd hle (by rw [heq]; omega)
  refine ⟨i, p, sc, (h2.scope_eq _ hregion).trans hi, hle, h2.kept hget hne,
    (h2.scope_eq _ houter).trans hp, hparent, hless, ?_, ?_⟩
  · rw [map_keyIn_congr fun b hb => h2.decl_eq b.2 (hvalues b hb)]
    exact hlists.values
  · rw [map_keyIn_congr fun b hb => h2.decl_eq b.2 (htypes b hb)]
    exact hlists.types

theorem Opened.mono {lo' : Nat} (h : Opened s lo outer f)
    (hlo : lo' ≤ lo) : Opened s lo' outer f := by
  obtain ⟨i, p, sc, hi, hle, rest⟩ := h
  exact ⟨i, p, sc, hi, Nat.le_trans hlo hle, rest⟩

theorem Collects.append (h1 : Collects P o1 s s1) (h2 : Collects P o2 s1 s2)
    (hr : Ready P (o1 ++ o2) s) : Collects P (o1 ++ o2) s s2 where
  current := h2.current.trans h1.current
  names := h2.names.trans h1.names
  linked := h2.linked
  size := by
    rw [h2.size, h1.size, scopes_append, length_append, Nat.add_assoc]
  decls := by
    rw [h2.decls, h1.decls, sites_append, length_append]
    omega
  tags := by
    rw [h2.tags, h1.tags, sites_append, map_append, append_assoc]
  numbered := by
    have hfirst : o1.sites.map (declAt s2.tree) = o1.sites.map (declAt s1.tree) :=
      map_congr_left fun x hx => h2.decl_eq x (hr.notMem_sites hx)
    rw [sites_append, map_append, hfirst, h1.numbered, h2.numbered, h1.decls,
      length_append, ← map_append, ← List.range'_append_1]
    congr 3
    omega
  scopes := by
    have hfirst : o1.scopes.map (fun x => scopeAt s2.tree x.2.region) =
        o1.scopes.map fun x => scopeAt s1.tree x.2.region :=
      map_congr_left fun x hx => h2.scope_eq _ (hr.notMem_regions (o1.scopes_mem x hx).1)
    rw [scopes_append, map_append, hfirst, h1.scopes, h2.scopes, h1.size,
      length_append, ← map_append, ← List.range'_append_1]
  log := by
    have hfirst : o1.items.map (Item.declared s2.tree P) =
      o1.items.map (Item.declared s1.tree P) := by
      refine map_congr_left fun x hx => Item.declared_congr
        (h2.decl_eq _ (hr.notMem_sites (o1.items_sites ▸ mem_map_of_mem hx))) (h2.scope_eq _ ?_)
      cases hregion : x.region with
      | none => exact (hr.right h1).self_notMem
      | some r => exact hr.notMem_regions (o1.items_mem x hx r hregion)
    rw [h2.log, h1.log, ← append_assoc, ← reverse_append, ← hfirst, ← map_append]
    rfl
  bare := h2.bare.trans h1.bare
  decl_eq x hx := by
    simp only [sites_append, mem_append, not_or] at hx
    exact (h2.decl_eq x hx.2).trans (h1.decl_eq x hx.1)
  scope_eq r hr' := by
    simp only [regions_append, mem_append, not_or] at hr'
    exact (h2.scope_eq r hr'.2).trans (h1.scope_eq r hr'.1)
  note_eq p := (h2.note_eq p).trans (h1.note_eq p)
  kept hget hne := h2.kept (h1.kept hget hne) (by rwa [h1.current])
  here hget := by
    obtain ⟨sc1, hget1, hparent1, hvalues1, htypes1⟩ := h1.here hget
    rw [← h1.current] at hget1
    obtain ⟨sc2, hget2, hparent2, hvalues2, htypes2⟩ := h2.here hget1
    refine ⟨sc2, by rw [← h1.current]; exact hget2, hparent2.trans hparent1, ?_, ?_⟩
    · have hfirst := map_keyIn_congr fun b hb =>
        h2.decl_eq b.2 (hr.notMem_sites (o1.values_mem b hb))
      rw [hvalues2, hvalues1, values_append, map_append, reverse_append, hfirst,
        append_assoc]
    · have hfirst := map_keyIn_congr fun b hb =>
        h2.decl_eq b.2 (hr.notMem_sites (o1.types_mem b hb))
      rw [htypes2, htypes1, types_append, map_append, reverse_append, hfirst,
        append_assoc]
  opened x hx := by
    obtain hx | hx := mem_append.1 hx
    · obtain ⟨hregion, houter, hvalues, htypes⟩ := o1.scopes_mem x hx
      refine (h1.opened x hx).later h2 ?_ (hr.notMem_regions hregion) ?_
        (fun b hb => hr.notMem_sites (hvalues b hb)) fun b hb => hr.notMem_sites (htypes b hb)
      · rw [h1.current]
        exact hr.linked.current
      · cases hparent : x.1 with
        | none => exact (hr.right h1).self_notMem
        | some r => exact hr.notMem_regions (houter r hparent)
    · exact (h2.opened x hx).mono (h1.size ▸ Nat.le_add_right ..)
  faultsOf c hc := (h2.faultsOf c hc).trans (h1.faultsOf c hc)
  accounts h := h2.accounts (h1.accounts h)
  completed := h2.completed.trans h1.completed
  impls := h2.impls.trans h1.impls

/-- The tree `w'` has the scopes of `t` in a part with outline `o`, and is like `w` elsewhere. -/
structure Overlays (o : Outline) (t w w' : Tree) : Prop where
  inside : ∀ r ∈ o.regions, scopeAt w' r = scopeAt t r
  outside : ∀ r ∉ o.regions, scopeAt w' r = scopeAt w r

theorem Overlays.refl {t : Tree} : Overlays .empty t w w := ⟨nofun, fun _ _ => rfl⟩

theorem Overlays.append {t1 t2 w1 w2 : Tree} (h1 : Overlays o1 t1 w w1) (h2 : Overlays o2 t2 w1 w2)
    (hr : Ready P (o1 ++ o2) s) (ht : ∀ r ∉ o2.regions, scopeAt t2 r = scopeAt t1 r) :
    Overlays (o1 ++ o2) t2 w w2 where
  inside r hmem := by
    obtain hmem | hmem := mem_append.1 hmem
    · have hne := hr.notMem_regions hmem
      rw [h2.outside r hne, h1.inside r hmem, ht r hne]
    · exact h2.inside r hmem
  outside r hr' := by
    simp only [regions_append, mem_append, not_or] at hr'
    exact (h2.outside r hr'.2).trans (h1.outside r hr'.1)

/-- On another tree that has the nodes which record scopes, a computation does the same. -/
def Echoes (o : Outline) (a : Resolve Unit) (s s' : State) : Prop :=
  ∀ w, (∀ r ∈ o.regions, (scopeAt w r).isSome) →
    ∃ w', a { s with tree := w } = .ok () { s' with tree := w' } ∧ Overlays o s'.tree w w'

/-- A computation in region `P` lays out what the outline `o` says. -/
def Lays (P : Region) (o : Outline) (a : Resolve Unit) : Prop :=
  ∀ s, Ready P o s → Gives a s fun _ s' => Collects P o s s' ∧ Echoes o a s s'

namespace Lays

variable {a b : Resolve Unit}

theorem pure : Lays P .empty (pure ()) := fun _ h =>
  .pure ⟨.refl h.linked, fun w _ => ⟨w, rfl, .refl⟩⟩

theorem seq (ha : Lays P o1 a) (hb : Lays P o2 b) : Lays P (o1 ++ o2) (a >>= fun _ => b) := by
  refine fun s h => (ha s h.left).bind fun _ s1 ⟨h1, e1⟩ => ?_
  refine (hb _ (h.right h1)).mono fun _ s2 ⟨h2, e2⟩ => ⟨h1.append h2 h, fun w hw => ?_⟩
  obtain ⟨w1, hrun1, ho1⟩ := e1 w fun r hr => hw r (mem_append_left _ hr)
  obtain ⟨w2, hrun2, ho2⟩ := e2 w1 fun r hr => by
    rw [ho1.outside r fun hr' => h.notMem_regions hr' hr]
    exact hw r (mem_append_right _ hr)
  exact ⟨w2, (Run.bind_eq hrun1).trans hrun2, ho1.append ho2 h h2.scope_eq⟩

end Lays

/-! ## Declaring -/

theorem onTable_eq {α : Type} {a : Run Scope.Table α} {x : α} (h : a s.table = .ok x t) :
    onTable a s = .ok x { s with table := t } := by
  rw [onTable, h]

theorem map_key_bind {t : Tree} {i : DeclId} (hkind : d.kind = site.kind)
    (hdecl : declAt t site = some i) (sc : Scope) : (sc.bind d i).values.map key =
        ((Outline.declare d.name site d.span).values.map (keyIn t)).reverse ++ sc.values.map key ∧
      (sc.bind d i).types.map key =
        ((Outline.declare d.name site d.span).types.map (keyIn t)).reverse ++ sc.types.map key := by
  have hkey : key (d.name, ⟨i, d.kind, d.span⟩) = keyIn t (d.name, site) := by
    rw [key, keyIn, hdecl, hkind]
  unfold Scope.bind Outline.declare
  rw [hkind] at hkey ⊢
  cases site <;> simp [Site.kind] at hkey ⊢ <;> exact hkey

/-- Declaring at a site and recording it there lays out the site. -/
theorem collects_declare
    (hr : Ready P (.declare d.name site d.span) s) (hsite : ∀ k, site ≠ .builtin k)
    (hkind : d.kind = site.kind) (hbuiltin : d.builtin = false)
    {sc : Scope} (hsc : s.table.get? s.table.current = some sc)
    (hdecl : Declares d sc s.table t) :
    Collects P (.declare d.name site d.span) s
      { s with table := t, tree := setDeclAt s.tree ⟨s.table.decls.size + 1⟩ site } := by
  have hread : declAt (setDeclAt s.tree ⟨s.table.decls.size + 1⟩ site) site =
      some ⟨s.table.decls.size + 1⟩ :=
    declAt_setDeclAt_self hsite (hr.backed.declared site mem_cons_self)
  have hget := get?_of_modify hdecl.scopes
  exact {
    current := hdecl.current
    names := hdecl.names
    linked := hr.linked.of_modify hdecl.scopes hdecl.current (Scope.parent_bind d _)
      (Scope.children_bind d _)
    size := by
      show t.scopes.size = s.table.scopes.size
      rw [hdecl.scopes, Array.size_modify]
    decls := hdecl.decls
    tags := by
      rw [hdecl.tags, Decl.tag, hbuiltin, hkind]
      rfl
    numbered := by
      show [declAt _ site] = _
      rw [hread]
      rfl
    scopes := rfl
    log := by
      have hitem : Item.declared (setDeclAt s.tree ⟨s.table.decls.size + 1⟩ site) P
          ⟨none, d.name, site, d.span⟩ =
            ⟨⟨⟨s.table.decls.size + 1⟩, d.kind, d.span⟩, d.name, s.table.current⟩ := by
        rw [Item.declared, hread, hkind, scopeOf, Option.getD_none, scopeAt_setDeclAt, hr.here]
        rfl
      rw [hdecl.log, ← hitem]
      rfl
    bare := bare_setDeclAt ..
    decl_eq := fun x hx => declAt_setDeclAt_of_ne fun h => hx (h ▸ mem_cons_self)
    scope_eq := fun r _ => scopeAt_setDeclAt site r
    note_eq := noteAt_setDeclAt site
    kept := fun {i sc} hsc hne => by rw [hget, if_neg hne.symm]; exact hsc
    here := fun {sc} hsc => by
      obtain ⟨hvalues, htypes⟩ := map_key_bind hkind hread sc
      exact ⟨_, by rw [hget, if_pos rfl, hsc]; rfl, Scope.parent_bind d _ sc, hvalues, htypes⟩
    opened := nofun
    faultsOf := fun _ => hdecl.faultsOf_eq
    accounts := fun h => h.declare hsc hdecl
    completed := rfl
    impls := rfl }

namespace Lays

variable {a b : Resolve Unit}

variable {site : Site} {name : NameId} {kind : DeclKind} {span : Span} {modifier : Modifier}
  {annotate k : DeclId → Resolve Unit}

theorem declare (hsite : ∀ k, site ≠ .builtin k) (hkind : kind = site.kind)
    (hannotate : ∀ d s, annotate d s = .ok () { s with tree := setDeclAt s.tree d site })
    (hk : ∀ d, Lays P o (k d)) :
    Lays P (.declare name site span ++ o) (Resolution.declare kind name span modifier >>= fun d =>
      annotate d >>= fun _ => k d) := by
  intro s h
  obtain ⟨sc, hsc⟩ := h.linked.exists_current
  obtain ⟨d, t, hrun, rfl, hdecl⟩ := gives_declare hsc (.fresh kind name span modifier)
  have hdeclare (w : Tree) := onTable_eq (s := { s with tree := w }) hrun
  refine .step (hdeclare _) (.step (hannotate _ _) ?_)
  have h1 := collects_declare h.left hsite hkind rfl hsc hdecl
  refine (hk _ _ (h.right h1)).mono fun _ _ ⟨h2, e2⟩ => ⟨h1.append h2 h, fun w hw => ?_⟩
  obtain ⟨w', hrun', ho⟩ := e2 (setDeclAt w ⟨s.table.decls.size + 1⟩ site) fun r hr => by
    rw [scopeAt_setDeclAt]
    exact hw r hr
  have hfirst (t : Tree) (d : DeclId) :
    Overlays (.declare name site span) t w (setDeclAt w d site) :=
    ⟨nofun, fun r _ => scopeAt_setDeclAt site r⟩
  exact ⟨w', (Run.bind_eq (hdeclare w)).trans ((Run.bind_eq (hannotate _ _)).trans hrun'),
    (hfirst _ _).append ho h h2.scope_eq⟩

theorem declareLast (hsite : ∀ k, site ≠ .builtin k)
    (hkind : kind = site.kind)
    (hannotate : ∀ d s, annotate d s = .ok () { s with tree := setDeclAt s.tree d site })
    (hk : ∀ d, Lays P .empty (k d)) :
    Lays P (.declare name site span) (Resolution.declare kind name span modifier >>= fun d =>
      annotate d >>= fun _ => k d) := by
  rw [← append_empty (.declare name site span)]
  exact declare hsite hkind hannotate hk

/-- What completes a declaration is not part of the outline. -/
theorem modifyDecl (d : DeclId) {f : Decl → Decl} (hf : ∀ x, (f x).core = x.core) :
    Lays P .empty (Resolution.modifyDecl d f) := by
  intro s h
  refine ⟨(), _, rfl, ?_, fun w _ => ⟨w, rfl, .refl⟩⟩
  have hsize : (s.table.decls.modify d f).size = s.table.decls.size := by
    unfold Decls.modify
    split
    · rfl
    · exact Array.size_modify ..
  have htag (x : Decl) : (f x).tag = x.tag := (congrArg Decl.tag (hf x) :)
  exact { Collects.refl (P := P) h.linked with
    linked := h.linked.congr rfl rfl
    decls := hsize
    tags := (Decls.tags_modify _ d htag).trans (append_nil _).symm
    log := Decls.log_modify _ d hf
    accounts := fun h => h.congr (Decls.log_modify _ d hf) rfl rfl
    numbered := rfl
    scopes := rfl
    opened := nofun }

end Lays

/-! ## Scopes -/

/-- The state in which the inside of a region is collected: its scope was opened and recorded. -/
private def entered (s : State) (r : Region) (kind : ScopeKind) (modifier : Modifier)
    (span : Span) : State :=
  { s with table := s.table.opened kind modifier span, tree := setScopeAt s.tree ⟨s.table.size⟩ r }

section Enclosed

variable {r : Region} {kind : ScopeKind} {modifier : Modifier} {span : Span}

private theorem ready_entered (kind : ScopeKind) (modifier : Modifier) (span : Span)
    (h : Ready P (o.enclose r) s) (hr : r ≠ .root) :
    Ready r o (entered s r kind modifier span) := by
  have hregions : (r :: o.regions).Nodup := (nodup_cons.1 h.regions).2
  refine ⟨h.linked.opened .., ?_, hregions, h.sites, fun x hx => ?_, fun r' hr' => ?_⟩
  · exact scopeAt_setScopeAt_self hr (h.backed.marked r mem_cons_self)
  · rw [entered, declAt_setScopeAt]
    exact h.backed.declared x hx
  · have hne : r ≠ r' := fun heq => (nodup_cons.1 hregions).1 (heq ▸ hr')
    rw [entered, scopeAt_setScopeAt_of_ne hne]
    exact h.backed.marked r' (mem_cons_of_mem _ hr')

/-- Coming back from a region leaves its scope behind, with all that its inside binds. -/
private theorem collects_left (h : Ready P (o.enclose r) s) (hr : r ≠ .root)
    (h1 : Collects r o (entered s r kind modifier span) s1) :
    Collects P (o.enclose r) s
      { s1 with table := { s1.table with current := s.table.current } } := by
  have hcurrent := h.linked.current
  have hsize : s1.table.size = s.table.size + 1 + o.scopes.length := by
    rw [← size_opened s.table kind modifier span]
    exact h1.size
  have hlt : ∀ {i sc}, s.table.get? i = some sc → i ≠ (⟨s.table.size⟩ : ScopeId) := fun hget heq =>
    absurd (lt_size_of_get? hget) (by rw [heq]; exact Nat.lt_irrefl _)
  have hget : ∀ {i sc}, s.table.get? i = some sc →
      (entered s r kind modifier span).table.get? i = if s.table.current = i
        then (s.table.get? i).map fun sc => { sc with children := sc.children ++ [⟨s.table.size⟩] }
        else s.table.get? i := fun hget =>
    get?_opened_of_lt _ _ _ _ (lt_size_of_get? hget)
  have hself : scopeAt s1.tree r = some (some ⟨s.table.size⟩) := by
    refine (h1.scope_eq r (nodup_cons.1 (nodup_cons.1 h.regions).2).1).trans ?_
    exact scopeAt_setScopeAt_self hr (h.backed.marked r mem_cons_self)
  -- the new scope, as the inside has left it
  obtain ⟨sc1, hsc1, hparent, hvalues, htypes⟩ :=
    h1.here (get?_opened_self s.table kind modifier span)
  exact { h1 with
    current := rfl
    linked := h1.linked.goTo (by omega)
    size := by
      rw [enclose, length_cons, length_map]
      exact hsize.trans (by omega)
    scopes := by
      rw [enclose, map_cons, map_map, length_cons, length_map, range'_succ, map_cons]
      refine congrArg₂ _ hself (h1.scopes.trans ?_)
      rw [entered, size_opened]
    log := by
      rw [h1.log, enclose, map_map]
      rfl
    bare := h1.bare.trans (bare_setScopeAt ..)
    decl_eq := fun x hx => (h1.decl_eq x hx).trans (declAt_setScopeAt r x)
    scope_eq := fun r' hr' => by
      obtain ⟨hne, hr'⟩ := not_or.1 (fun h => hr' (mem_cons.2 h))
      exact (h1.scope_eq r' hr').trans (scopeAt_setScopeAt_of_ne fun heq => hne heq.symm)
    note_eq := fun p => (h1.note_eq p).trans (noteAt_setScopeAt r p)
    kept := fun {i sc} hsc hne => by
      refine h1.kept ?_ (hlt hsc)
      rw [hget hsc, if_neg fun heq => hne heq.symm]
      exact hsc
    here := fun {sc} hsc => by
      refine ⟨{ sc with children := sc.children ++ [⟨s.table.size⟩] }, h1.kept ?_ (hlt hsc),
        rfl, rfl, rfl⟩
      rw [hget hsc, if_pos rfl, hsc]
      rfl
    opened := fun x hx => by
      obtain rfl | hx := mem_cons.1 hx
      · -- the scope of the region itself
        have hregions := nodup_cons.1 h.regions
        refine ⟨⟨s.table.size⟩, s.table.current, sc1, hself, .refl, hsc1, ?_, hparent, hcurrent,
          hvalues.trans (append_nil _), htypes.trans (append_nil _)⟩
        refine (h1.scope_eq P fun hP => hregions.1 (mem_cons_of_mem _ hP)).trans ?_
        refine (scopeAt_setScopeAt_of_ne fun heq => hregions.1 ?_).trans h.here
        rw [heq]
        exact mem_cons_self
      · -- a scope further inside
        obtain ⟨y, hy, rfl⟩ := mem_map.1 hx
        obtain ⟨i, p, sc, rest⟩ := (h1.opened y hy).mono (show s.table.size ≤ _ by
          rw [entered, size_opened]; omega)
        exact ⟨i, p, sc, rest⟩
    accounts := fun h => (h1.accounts (h.opened kind modifier span)).congr rfl rfl rfl }

end Enclosed

/-- A computation lays out the inside of a region and then closes the scope. -/
def LaysClosing (P : Region) (o : Outline) (a : Resolve Unit) : Prop :=
  ∃ b, Lays P o b ∧ a = b >>= fun _ => closeScope

namespace LaysClosing

variable {a b : Resolve Unit}

theorem close (ha : Lays P o a) : LaysClosing P o (a >>= fun _ => closeScope) := ⟨a, ha, rfl⟩

theorem seq (ha : Lays P o1 a) : LaysClosing P o2 b →
    LaysClosing P (o1 ++ o2) (a >>= fun _ => b) := by
  rintro ⟨b, hb, rfl⟩
  exact ⟨_, ha.seq hb, (bind_assoc ..).symm⟩

end LaysClosing

namespace Lays

variable {r : Region} {a : Resolve Unit}

/-- A region: its scope is opened and recorded, its inside is collected, and the scope is closed. -/
theorem enclose {kind : ScopeKind} {modifier : Modifier} {span : Span}
    {annotate k : ScopeId → Resolve Unit} (hr : r ≠ .root)
    (hannotate : ∀ i s, annotate i s = .ok () { s with tree := setScopeAt s.tree i r })
    (hk : ∀ i, LaysClosing r o (k i)) :
    Lays P (o.enclose r) (openScope kind modifier span >>= fun i => annotate i >>= fun _ =>
      k i) := by
  intro s h
  obtain ⟨sc, hsc⟩ := h.linked.exists_current
  have hopen (w : Tree) := onTable_eq (s := { s with tree := w }) (push_eq hsc kind modifier span)
  obtain ⟨a, ha, hka⟩ := hk ⟨s.table.size⟩
  obtain ⟨_, s1, hrun, h1, e1⟩ := ha _ (ready_entered kind modifier span h hr)
  obtain ⟨sc1, hsc1, hparent, -⟩ := h1.here (get?_opened_self s.table kind modifier span)
  rw [← h1.current] at hsc1
  have hclose (w : Tree) := onTable_eq (s := { s1 with tree := w }) (pop_eq hsc1 hparent)
  refine .step (hopen _) (.step (hannotate _ _) ?_)
  rw [hka]
  refine ⟨(), _, (Run.bind_eq hrun).trans (hclose _), collects_left h hr h1, fun w hw => ?_⟩
  -- on another tree the scope has the same number
  have hself := (nodup_cons.1 (nodup_cons.1 h.regions).2).1
  obtain ⟨w', hrun', ho⟩ := e1 (setScopeAt w ⟨s.table.size⟩ r) fun r' hr' => by
    have hne : r ≠ r' := fun heq => hself (heq ▸ hr')
    rw [scopeAt_setScopeAt_of_ne hne]
    exact hw r' (mem_cons_of_mem _ hr')
  refine ⟨w', (Run.bind_eq (hopen w)).trans ((Run.bind_eq (hannotate _ _)).trans ?_),
    fun r' hr' => ?_, fun r' hr' => ?_⟩
  · rw [hka]
    exact (Run.bind_eq hrun').trans (hclose w')
  · obtain rfl | hr' := mem_cons.1 hr'
    · exact ((ho.outside r' hself).trans (scopeAt_setScopeAt_self hr (hw r' mem_cons_self))).trans
        ((h1.scope_eq r' hself).trans (ready_entered kind modifier span h hr).here).symm
    · exact ho.inside r' hr'
  · obtain ⟨hne, hr'⟩ := not_or.1 fun h => hr' (mem_cons.2 h)
    exact (ho.outside r' hr').trans (scopeAt_setScopeAt_of_ne fun heq => hne heq.symm)

theorem record (hr : r ≠ .root) (i : ScopeId)
    (ha : ∀ s, a s = .ok () { s with tree := setScopeAt s.tree i r }) : Lays P (.record r) a := by
  intro s h
  have hself : scopeAt (setScopeAt s.tree i r) r = some (some i) :=
    scopeAt_setScopeAt_self hr (h.backed.marked r mem_cons_self)
  have hother {t : Tree} {r' : Region} (hr' : r' ∉ (Outline.record r).regions) :
      scopeAt (setScopeAt t i r) r' = scopeAt t r' :=
    scopeAt_setScopeAt_of_ne fun heq => hr' (heq ▸ mem_cons_self)
  refine ⟨(), _, ha s, ?_, fun w hw =>
    ⟨setScopeAt w i r, ha _, fun r' hr' => ?_, fun _ => hother⟩⟩
  rotate_left
  · rw [mem_singleton.1 hr']
    exact (scopeAt_setScopeAt_self hr (hw r mem_cons_self)).trans hself.symm
  exact {
    Collects.refl (P := P) h.linked with
    tags := (append_nil _).symm
    numbered := rfl
    scopes := rfl
    log := rfl
    bare := bare_setScopeAt ..
    decl_eq := fun x _ => declAt_setScopeAt r x
    scope_eq := fun _ => hother
    note_eq := noteAt_setScopeAt r
    opened := nofun }

theorem currentModifier {k : Modifier → Resolve Unit} (hk : ∀ m, Lays P o (k m)) :
    Lays P o (Resolution.currentModifier >>= k) := by
  intro s h
  obtain ⟨sc, hsc⟩ := h.linked.exists_current
  have hrun (w : Tree) := onTable_eq (s := { s with tree := w }) (currentModifier_eq hsc)
  refine .step (hrun _) ((hk _ s h).mono fun _ _ ⟨h', e⟩ => ⟨h', fun w hw => ?_⟩)
  obtain ⟨w', hrun', ho⟩ := e w hw
  exact ⟨w', (Run.bind_eq (hrun w)).trans hrun', ho⟩

theorem quiet {b : Resolve Unit} (ha : Lays P .empty a) (hb : Lays P o b) :
    Lays P o (a >>= fun _ => b) := by
  have h := ha.seq hb
  rwa [empty_append] at h

end Lays

/-! ## The walk -/

theorem lays_collectParams (r : PayloadId) (owner : DeclId) (i : Nat) (ps : List ParamForm) :
    Lays P (outlineEach (.param r) i (ps.map labelOfParam)) (collectParams r owner i ps) := by
  induction ps generalizing i with
  | nil => exact .pure
  | cons p ps ih =>
    exact .declare nofun rfl (fun _ _ => rfl) fun d =>
      .quiet (.modifyDecl d fun _ => rfl) (ih (i + 1))

theorem lays_collectFields (r : PayloadId) (owner : DeclId) (i : Nat) (ms : List MemberForm) :
    Lays P (outlineEach (.field r) i (ms.map labelOfMember)) (collectFields r owner i ms) := by
  induction ms generalizing i with
  | nil => exact .pure
  | cons m ms ih =>
    exact .declare nofun rfl (fun _ _ => rfl) fun d =>
      .quiet (.modifyDecl d fun _ => rfl) (ih (i + 1))

theorem lays_collectVariants (r : PayloadId) (owner : DeclId) (i : Nat) (ms : List MemberForm) :
    Lays P (outlineEach (.variant r) i (ms.map labelOfMember)) (collectVariants r owner i ms) := by
  induction ms generalizing i with
  | nil => exact .pure
  | cons m ms ih =>
    exact .declare nofun rfl (fun _ _ => rfl) fun d =>
      .quiet (.modifyDecl d fun _ => rfl) (ih (i + 1))

mutual

theorem lays_collectStmt (owner : DeclId) (P : Region) :
    (s : Stmt) → isWholeStmt s = true → Lays P (outlineStmt s) (collectStmt owner s)
  | .absent _, _ => .pure
  | .var n name nameSpan type value modifier, h => by
    obtain ⟨-, hvalue⟩ := Bool.and_eq_true_iff.1 h
    refine (lays_collectExpr P value hvalue).seq ?_
    have hdeclare : ∀ m, Lays P (.declare name (.var n.record) nameSpan) (do
        let d ← declare .var name nameSpan m
        annotateVar n.record ({ · with decl := d })
        modifyDecl d ({ · with stmt := n.id })) :=
      fun m => .declareLast nofun rfl (fun _ _ => rfl) fun d => .modifyDecl d fun _ => rfl
    show Lays P _ (if modifier = .default then _ else _)
    split
    · exact .currentModifier hdeclare
    · exact hdeclare modifier
  | .assign n target value, h => by
    obtain ⟨htarget, hvalue⟩ := Bool.and_eq_true_iff.1 h
    exact (lays_collectExpr P target htarget).seq (lays_collectExpr P value hvalue)
  | .func n name nameSpan params result body modifier, h => by
    rw [outlineStmt_func, collectStmt]
    have hbody := lays_collectExpr (.func n.record) body (Bool.and_eq_true_iff.1 h).2
    refine .declare nofun rfl (fun _ _ => rfl) fun d => .quiet (.modifyDecl d fun _ => rfl) ?_
    refine .enclose nofun (fun _ _ => rfl) fun i => .seq (lays_collectParams n.record d 0 params) ?_
    cases body with
    | block b stmts =>
      -- the block of the body is the scope of the function
      refine .seq (.record nofun i fun _ => rfl) (.close ?_)
      exact lays_collectStmts 0 (.func n.record) stmts (Bool.and_eq_true_iff.1 h).2
    | _ => exact .close hbody
  | .typeDecl n kind name nameSpan fields variants methods, h => by
    obtain ⟨-, hmethods⟩ := Bool.and_eq_true_iff.1 h
    refine .declare nofun rfl (fun _ _ => rfl) fun d => .quiet (.modifyDecl d fun _ => rfl) ?_
    refine .enclose nofun (fun _ _ => rfl) fun i => .seq (lays_collectFields n.record d 0 fields) ?_
    refine .seq (lays_collectVariants n.record d 0 variants) (.close ?_)
    exact lays_collectStmts d (.type n.record) methods hmethods
  | .impl n trait target methods, h => by
    obtain ⟨-, hmethods⟩ := Bool.and_eq_true_iff.1 h
    refine .enclose nofun (fun _ _ => rfl) fun i => .close ?_
    exact lays_collectStmts 0 (.impl n.record) methods hmethods
  | .expr _ e _, h | .jump _ _ e, h => lays_collectExpr P e h

theorem lays_collectStmts (owner : DeclId) (P : Region) :
    (ss : List Stmt) → areWholeStmts ss = true → Lays P (outlineStmts ss) (collectStmts owner ss)
  | [], _ => .pure
  | s :: ss, h => by
    obtain ⟨hs, hss⟩ := Bool.and_eq_true_iff.1 h
    exact (lays_collectStmt owner P s hs).seq (lays_collectStmts owner P ss hss)

theorem lays_collectExpr (P : Region) :
    (e : Expr) → isWholeExpr e = true → Lays P (outlineExpr e) (collectExpr e)
  | .absent _, _ | .ident _ _, _ | .literal _ _ _, _ => .pure
  | .binary _ _ left right, h | .index _ left right, h | .whileLoop _ left right, h => by
    obtain ⟨hleft, hright⟩ := Bool.and_eq_true_iff.1 h
    exact (lays_collectExpr P left hleft).seq (lays_collectExpr P right hright)
  | .unary _ _ e, h | .ref _ _ e, h | .deref _ e, h | .field _ e _, h => lays_collectExpr P e h
  | .call _ callee args, h => by
    obtain ⟨hcallee, hargs⟩ := Bool.and_eq_true_iff.1 h
    exact (lays_collectExpr P callee hcallee).seq (lays_collectExprs P args hargs)
  | .array _ elems _, h => lays_collectExprs P elems (Bool.and_eq_true_iff.1 h).1
  | .cast _ value _, h => lays_collectExpr P value (Bool.and_eq_true_iff.1 h).1
  | .block n stmts, h => by
    refine .currentModifier fun m => .enclose nofun (fun _ _ => rfl) fun i => .close ?_
    exact lays_collectStmts 0 (.block n.record) stmts h
  | .ifElse _ cond body arms, h => by
    obtain ⟨h, harms⟩ := Bool.and_eq_true_iff.1 h
    obtain ⟨hcond, hbody⟩ := Bool.and_eq_true_iff.1 h
    exact (lays_collectExpr P cond hcond).seq
      ((lays_collectExpr P body hbody).seq (lays_collectArms P arms harms))
  | .forLoop n binding bindingSpan iter body, h => by
    obtain ⟨hiter, hbody⟩ := Bool.and_eq_true_iff.1 h
    refine (lays_collectExpr P iter hiter).seq (.currentModifier fun m => ?_)
    refine .enclose nofun (fun _ _ => rfl) fun i => ?_
    have hinside : Lays (.loop n.record) (outlineLoop n.record binding bindingSpan body) (do
        let d ← declare .var binding bindingSpan (← currentModifier)
        annotateFor n.record ({ · with decl := d })
        collectExpr body) :=
      .currentModifier fun m => .declare nofun rfl (fun _ _ => rfl) fun d =>
        lays_collectExpr (.loop n.record) body hbody
    have hclosed := LaysClosing.close hinside
    simp only [bind_assoc] at hclosed
    exact hclosed

theorem lays_collectExprs (P : Region) :
    (es : List Expr) → areWholeExprs es = true → Lays P (outlineExprs es) (collectExprs es)
  | [], _ => .pure
  | e :: es, h => by
    obtain ⟨he, hes⟩ := Bool.and_eq_true_iff.1 h
    exact (lays_collectExpr P e he).seq (lays_collectExprs P es hes)

theorem lays_collectArms (P : Region) :
    (arms : List Arm) → areWholeArms arms = true → Lays P (outlineArms arms) (collectArms arms)
  | [], _ => .pure
  | .mk _ cond body _ :: arms, h => by
    obtain ⟨h, harms⟩ := Bool.and_eq_true_iff.1 h
    obtain ⟨hcond, hbody⟩ := Bool.and_eq_true_iff.1 h
    exact (lays_collectExpr P cond hcond).seq
      ((lays_collectExpr P body hbody).seq (lays_collectArms P arms harms))

end

end UnitCheck.Resolution
