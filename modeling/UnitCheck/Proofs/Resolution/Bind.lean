import UnitCheck.Proofs.Resolution.Lookup
import Mathlib.Data.List.Flatten
import Mathlib.Data.List.Nodup
import Mathlib.Data.List.Pairwise

/-!
# The second walk binds uses as lexical scoping says

The second walk starts from what the first one left, the state `F`, and never changes its scopes and
declarations. `Walks F W P env done o us a` says of a computation `a` in region `P`, with the scopes
`env` around it and the variables `done` completed: it does not abort, it completes the variables of
the outline `o` in order, records for every use of `us` the declaration that the use means, and
stores the implementations of `o` whose traits are traits.

A sequence of walks completes variables between its parts (`Walks.seq`), which is how program order
decides what a use can see. A region adds its frame to the scopes around (`Steps.enclose`).

Of the annotations, the walk reads the declarations and scopes of the first walk and, where a trait
is implemented, the declarations of two types. So it is said of all trees at once that agree in
these with the one of `F` (`Fits`): what happens besides the tree is the same on all of them. The
declarations of traits and targets are then those of any tree that a walk over the whole program
leaves. -/

namespace UnitCheck.Resolution

open List Scope.Table Syntax Outline

/-! ## Recording -/

def Mention.place : Mention → Place
  | value n | callee _ n => .ident n.record
  | type n => .type n.id

theorem Mention.place_mem_places (m : Mention) : m.place ∈ m.places := by
  cases m <;> exact mem_cons_self

/-- What is recorded for a use in going from `w` to `w'`: the declaration that the use means, as `t`
has it, and nothing if it means none; for a callee also all functions that it may mean. -/
structure Use.Written (u : Use) (t w w' : Tree) : Prop where
  decl : noteAt w' u.mention.place = match u.site? with
    | some x => (declAt t x).map fun d => [d]
    | none => noteAt w u.mention.place
  candidates : ∀ call n, u.mention = .callee call n →
    noteAt w' (.call call) = some (u.functions.filterMap (declAt t))

abbrev Use.Recorded (u : Use) (t t' : Tree) : Prop := u.Written t' t t'

/-- What the second walk never changes in a tree. -/
structure Unmoved (t t' : Tree) : Prop where
  bare : t'.bare = t.bare
  decl_eq : ∀ x, declAt t' x = declAt t x
  scope_eq : ∀ r, scopeAt t' r = scopeAt t r

variable {t w : Tree} {i : TypeExprId} {u : Use} {found : Option Entry} {α : Type} {x : ImplRecord}
  {trait target : TypeExpr} {r : Region}

theorem Unmoved.refl : Unmoved t t := ⟨rfl, fun _ => rfl, fun _ => rfl⟩

theorem Unmoved.trans {t1 t2 t3 : Tree} (h : Unmoved t1 t2) (h' : Unmoved t2 t3) : Unmoved t1 t3 :=
  ⟨h'.bare.trans h.bare, fun x => (h'.decl_eq x).trans (h.decl_eq x),
    fun r => (h'.scope_eq r).trans (h.scope_eq r)⟩

def setNoteAt (t : Tree) (d : DeclId) : Place → Tree
  | .ident r => { t with exprs.idents := t.exprs.idents.modify r.index ({ · with decl := d }) }
  | .type i => { t with types := t.types.modify i.index ({ · with decl := d }) }
  | .call _ => t

def setCandidates (t : Tree) (f : CallRecord → CallRecord) (r : PayloadId) : Tree :=
  { t with exprs.calls := t.exprs.calls.modify r.index f }

section Setters

variable (t : Tree) (d : DeclId) (f : CallRecord → CallRecord) (r : PayloadId) (p : Place)

theorem unmoved_setNoteAt : Unmoved t (setNoteAt t d p) where
  bare := by
    cases p with
    | call => rfl
    | ident | type =>
      simp only [setNoteAt, Tree.bare]
      rw [Arena.map_modify fun _ => by rfl]
  decl_eq x := by cases p <;> cases x <;> rfl
  scope_eq x := by cases p <;> cases x <;> rfl

theorem unmoved_setCandidates (hf : ∀ x, (f x).bare = x.bare) :
    Unmoved t (setCandidates t f r) where
  bare := by
    simp only [setCandidates, Tree.bare]
    rw [Arena.map_modify hf]
  decl_eq x := by cases x <;> rfl
  scope_eq x := by cases x <;> rfl

variable {t p}

theorem noteAt_setNoteAt_self (hp : ∀ r, p ≠ .call r) (h : (noteAt t p).isSome) :
    noteAt (setNoteAt t d p) p = some [d] := by
  cases p with
  | call r => exact absurd rfl (hp r)
  | ident r | type r =>
    simp only [noteAt, Tree.type?, Option.isSome_map] at h
    obtain ⟨x, hx⟩ := Option.isSome_iff_exists.1 h
    simp [noteAt, setNoteAt, Tree.type?, Arena.get?_modify, hx]

theorem noteAt_setNoteAt_of_ne {p' : Place} (h : p' ≠ p) :
    noteAt (setNoteAt t d p) p' = noteAt t p' := by
  cases p <;> cases p' <;> simp only [noteAt, setNoteAt, Tree.type?]
  case ident.ident r r' | type.type r r' =>
    exact congrArg _ (Arena.get?_modify_of_ne fun hr => h (by rw [hr]))

theorem noteAt_setCandidates_self {x : CallRecord} (h : t.exprs.calls.get? r.index = some x) :
    noteAt (setCandidates t f r) (.call r) = some ((f x).candidates.getD []) := by
  simp [noteAt, setCandidates, Arena.get?_modify, h]

theorem noteAt_setCandidates_of_ne (h : p ≠ .call r) :
    noteAt (setCandidates t f r) p = noteAt t p := by
  cases p with
  | ident r' | type r' => rfl
  | call r' =>
    have hne : r ≠ r' := fun hr => h (by rw [hr])
    simp only [noteAt, setCandidates, Arena.get?_modify_of_ne hne]

end Setters

theorem isSome_noteAt_bare (t : Tree) (p : Place) :
    (noteAt t.bare p).isSome = (noteAt t p).isSome := by
  cases p with
  | ident r => simp [noteAt, Tree.bare, Arena.get?_map]
  | call r => simp [noteAt, Tree.bare, Arena.get?_map]
  | type i => simp [noteAt, Tree.type?_bare]

/-- A type is known by its declaration and what else is in its record. -/
theorem type?_congr (h : w.bare = t.bare)
    (hnote : noteAt w (.type i) = noteAt t (.type i)) : w.type? i = t.type? i := by
  have hrecord := congrArg (fun t : Tree => t.type? i) h
  simp only [Tree.type?_bare] at hrecord
  simp only [noteAt] at hnote
  cases hw : w.type? i <;> cases ht : t.type? i <;> simp only [hw, ht] at hrecord hnote ⊢
  case none.some | some.none => cases hrecord
  case some.some r r' =>
    obtain ⟨⟩ := r
    simp_all [TypeRecord.bare]

/-! ## Implementations -/

def traitOf? (t : Tree) (r : PayloadId) : Option TypeRecord :=
  (t.stmts.impls.get? r.index).bind fun x => t.type? x.trait

def implements (t : Tree) (decls : Decls) (r : PayloadId) : Bool :=
  (traitOf? t r).any fun x => (decls.get? x.decl).any Decl.isTrait

def misfit? (t : Tree) (table : Scope.Table) (r : PayloadId) : Option Fault :=
  (traitOf? t r).bind fun x => if x.decl.isValid && !(table.decls.get? x.decl).any Decl.isTrait
    then some (notATrait x.span (table.names.display x.name) (table.decls.get? x.decl)) else none

structure Stores (t : Tree) (r : PayloadId) (i : Implementation) : Prop where
  stmt : t.stmt? i.stmt = some ⟨.impl, i.span, r⟩
  trait : (traitOf? t r).map TypeRecord.decl = some i.trait
  target : (t.stmts.impls.get? r.index).map ImplRecord.target = some i.target
  targetDecl : ((t.type? i.target).map TypeRecord.decl).getD 0 = i.targetDecl

theorem get?_of_isValid {decls : Decls} {i : DeclId} (h : i.isValid = false) :
    decls.get? i = none :=
  if_pos (by simpa [Id.isValid] using h)

theorem idle_of_decl {r : PayloadId} {x : TypeRecord} (h : traitOf? t r = some x)
    (hdecl : x.decl.isValid = false) (table : Scope.Table) :
    misfit? t table r = none ∧ implements t table.decls r = false := by
  simp [misfit?, implements, h, hdecl, get?_of_isValid hdecl]

/-! ## Before and behind -/

/-- The whole program that a walk is a part of. -/
structure Extent where
  outline : Outline
  uses : List Use

/-- The type is a name that is found. -/
def Extent.Finds (W : Extent) (i : TypeExprId) : Prop :=
  ∃ u ∈ W.uses, u.site?.isSome ∧ u.mention.place = .type i

/-- The type is the trait or the target of an implementation among the regions. -/
def IsHead (t : Tree) (rs : List Region) (i : TypeExprId) : Prop :=
  ∃ r x, .impl r ∈ rs ∧ t.stmts.impls.get? r.index = some x ∧ (i = x.trait ∨ i = x.target)

/-- What the first walk has to have left for a part of a program with outline `o` and uses `us`. -/
structure Laid (F : State) (W : Extent) (P : Region) (o : Outline) (us : List Use) : Prop where
  opened : ∀ x ∈ o.scopes, Opened F 0 (x.1.getD P) x.2
  sites : ∀ x ∈ o.sites, x ∈ W.outline.sites
  regions : ∀ r ∈ o.regions, r ∈ W.outline.regions
  uses : us.Sublist W.uses
  declared : ∀ x ∈ W.outline.sites, (declAt F.tree x).isSome
  places : (W.uses.flatMap fun u => u.mention.places).Nodup
  noted : Noted F.tree.bare W.uses

/-- A state of the second walk in region `P`, with the scopes `env` around and `done` completed. All
variables in sight are those of the program, whose declarations differ. -/
structure At (F : State) (W : Extent) (P : Region) (env : List Frame) (done : List Site)
    (s : State) : Prop where
  scopes : s.table.scopes = F.table.scopes
  decls : s.table.decls = F.table.decls
  names : s.table.names = F.table.names
  current : s.table.current.index < s.table.size
  here : scopeAt F.tree P = some (some s.table.current)
  sees : Sees F (some s.table.current) env
  completed : ∀ d, d ∈ s.completed ↔ ∃ x ∈ done, declAt F.tree x = some d
  env_mem : ∀ f ∈ env, ∀ b ∈ f.values, b.2 ∈ W.outline.sites
  done_mem : ∀ x ∈ done, x ∈ W.outline.sites
  injective : ∀ x ∈ W.outline.sites, ∀ y ∈ W.outline.sites,
    declAt F.tree x = declAt F.tree y → x = y

/-- A tree on which the program is walked like on that of `F`: it has the same declarations and
scopes, and the same declarations at traits and targets, the names that are found aside. -/
structure Fits (F : State) (W : Extent) (w : Tree) : Prop where
  bare : w.bare = F.tree.bare
  sites : ∀ x ∈ W.outline.sites, declAt w x = declAt F.tree x
  regions : ∀ r ∈ W.outline.regions, scopeAt w r = scopeAt F.tree r
  heads : ∀ i, IsHead F.tree.bare W.outline.regions i → ¬ W.Finds i →
    noteAt w (.type i) = noteAt F.tree (.type i)

/-- What walking a part with uses `us` does to a tree. -/
structure Wrote (F : State) (us : List Use) (w w' : Tree) : Prop extends Unmoved w w' where
  written : ∀ u ∈ us, u.Written F.tree w w'
  note_eq : ∀ p ∉ us.flatMap (fun u => u.mention.places), noteAt w' p = noteAt w p

/-- What walking a part with uses `us` and implementations `rs`, in which `cs` are completed, does
to a state besides its tree. -/
structure Walked (F : State) (W : Extent) (us : List Use) (rs : List PayloadId) (cs : List Site)
    (s s' : State) : Prop where
  scopes : s'.table.scopes = s.table.scopes
  decls : s'.table.decls = s.table.decls
  names : s'.table.names = s.table.names
  current : s'.table.current = s.table.current
  completed : ∀ d, d ∈ s'.completed ↔ d ∈ s.completed ∨ ∃ x ∈ cs, declAt F.tree x = some d
  unfound : s'.table.unfound = s.table.unfound ++
    (us.filter fun u => u.site?.isNone).map (Use.fault F.table.names)
  misfits : ∀ T, Wrote F W.uses F.tree T → s'.table.faultsOf .invalidTypeKind =
    s.table.faultsOf .invalidTypeKind ++ rs.filterMap (misfit? T F.table)
  quiet : ∀ c, c ≠ .notFoundInScope → c ≠ .invalidTypeKind →
    s'.table.faultsOf c = s.table.faultsOf c
  impls : ∀ T, Wrote F W.uses F.tree T → ∃ items, s'.impls.items = s.impls.items ++ items ∧
    List.Forall₂ (Stores T) (rs.filter (implements T F.table.decls)) items

/-- A computation walks a part with uses `us` and implementations `rs`, in which `cs` are
completed. -/
def Steps (F : State) (W : Extent) (P : Region) (env : List Frame) (done : List Site)
    (us : List Use) (rs : List PayloadId) (cs : List Site) (a : Resolve Unit) : Prop :=
  ∀ s, At F W P env done s → ∃ s', Walked F W us rs cs s s' ∧
    ∀ w, Fits F W w → ∃ w', a { s with tree := w } = .ok () { s' with tree := w' } ∧ Wrote F us w w'

/-- A computation in region `P` walks a part of a program with outline `o` and uses `us`. -/
def Walks (F : State) (W : Extent) (P : Region) (env : List Frame) (done : List Site)
    (o : Outline) (us : List Use) (a : Resolve Unit) : Prop :=
  Laid F W P o us → Steps F W P env done us o.impls o.completed a

variable {F : State} {W : Extent} {P : Region} {env : List Frame} {done : List Site}
  {o o1 o2 : Outline} {us us1 us2 : List Use} {rs rs1 rs2 : List PayloadId} {cs cs1 cs2 : List Site}
  {s s1 s2 : State} {w w1 w2 : Tree}

theorem At.stands (h : At F W P env done s) : Stands F env done s where
  scopes := h.scopes
  current := h.current
  sees := h.sees
  completed := h.completed
  distinct f hf b hb x hx := h.injective _ (h.env_mem f hf b hb) x (h.done_mem x hx)

theorem At.after (h : At F W P env done s) (h1 : Walked F W us1 rs1 cs1 s s1)
    (hcs : ∀ x ∈ cs1, x ∈ W.outline.sites) : At F W P env (done ++ cs1) s1 where
  scopes := h1.scopes.trans h.scopes
  decls := h1.decls.trans h.decls
  names := h1.names.trans h.names
  current := by
    rw [h1.current, size, h1.scopes]
    exact h.current
  here := by
    rw [h1.current]
    exact h.here
  sees := by
    rw [h1.current]
    exact h.sees
  completed d := by
    rw [h1.completed, h.completed]
    simp only [mem_append, or_and_right, exists_or]
  env_mem := h.env_mem
  done_mem x hx := (mem_append.1 hx).elim (h.done_mem x) (hcs x)
  injective := h.injective

theorem Walked.refl : Walked F W [] [] [] s s :=
  ⟨rfl, rfl, rfl, rfl, fun d => by simp, (append_nil _).symm, fun _ _ => (append_nil _).symm,
    fun _ _ _ => rfl, fun _ _ => ⟨[], (append_nil _).symm, .nil⟩⟩

theorem Walked.append (h1 : Walked F W us1 rs1 cs1 s s1) (h2 : Walked F W us2 rs2 cs2 s1 s2) :
    Walked F W (us1 ++ us2) (rs1 ++ rs2) (cs1 ++ cs2) s s2 where
  scopes := h2.scopes.trans h1.scopes
  decls := h2.decls.trans h1.decls
  names := h2.names.trans h1.names
  current := h2.current.trans h1.current
  completed d := by
    rw [h2.completed, h1.completed]
    simp only [mem_append, or_and_right, exists_or, or_assoc]
  unfound := by
    rw [h2.unfound, h1.unfound, filter_append, map_append, append_assoc]
  misfits T hT := by
    rw [h2.misfits T hT, h1.misfits T hT, filterMap_append, append_assoc]
  quiet c hc hc' := (h2.quiet c hc hc').trans (h1.quiet c hc hc')
  impls T hT := by
    obtain ⟨items1, heq1, h1⟩ := h1.impls T hT
    obtain ⟨items2, heq2, h2⟩ := h2.impls T hT
    refine ⟨items1 ++ items2, by rw [heq2, heq1, append_assoc], ?_⟩
    rw [filter_append]
    exact rel_append h1 h2

theorem Fits.refl : Fits F W F.tree := ⟨rfl, fun _ _ => rfl, fun _ _ => rfl, fun _ _ _ => rfl⟩

theorem Wrote.refl : Wrote F [] w w := ⟨.refl, nofun, fun _ _ => rfl⟩

theorem Wrote.append (h1 : Wrote F us1 w w1) (h2 : Wrote F us2 w1 w2)
    (hplaces : ((us1 ++ us2).flatMap fun u => u.mention.places).Nodup) :
    Wrote F (us1 ++ us2) w w2 where
  toUnmoved := h1.toUnmoved.trans h2.toUnmoved
  written u hu := by
    rw [flatMap_append, nodup_append] at hplaces
    have hdisjoint := hplaces.2.2
    obtain hu | hu := mem_append.1 hu
    · -- the second part does not touch the places of the first one
      have hkeep : ∀ p ∈ u.mention.places, noteAt w2 p = noteAt w1 p := fun p hp =>
        h2.note_eq p fun hp' => hdisjoint p (mem_flatMap.2 ⟨u, hu, hp⟩) p hp' rfl
      have hrec := h1.written u hu
      refine ⟨(hkeep _ u.mention.place_mem_places).trans hrec.decl, fun call n hcall => ?_⟩
      rw [hkeep (.call call) (by rw [hcall]; exact mem_cons_of_mem _ mem_cons_self)]
      exact hrec.candidates call n hcall
    · have hkeep : noteAt w1 u.mention.place = noteAt w u.mention.place :=
        h1.note_eq _ fun hp => hdisjoint _ hp _
          (mem_flatMap.2 ⟨u, hu, u.mention.place_mem_places⟩) rfl
      have hrec := h2.written u hu
      exact ⟨by rw [hrec.decl, hkeep], hrec.candidates⟩
  note_eq p hp := by
    rw [flatMap_append, mem_append, not_or] at hp
    exact (h2.note_eq p hp.2).trans (h1.note_eq p hp.1)

/-- Only names that are found are written into types. -/
theorem Wrote.fits (h : us ⊆ W.uses) (hw : Fits F W w) (hw1 : Wrote F us w w1) : Fits F W w1 where
  bare := hw1.bare.trans hw.bare
  sites x hx := (hw1.decl_eq x).trans (hw.sites x hx)
  regions r hr := (hw1.scope_eq r).trans (hw.regions r hr)
  heads i hhead hi := by
    rw [← hw.heads i hhead hi]
    by_cases hmem : .type i ∈ us.flatMap fun u => u.mention.places
    · obtain ⟨u, hu, hp⟩ := mem_flatMap.1 hmem
      have hplace : u.mention.place = .type i := by
        cases hm : u.mention <;> simp [hm, Mention.places, Mention.place] at hp ⊢
        exact hp.symm
      have hdecl := (hw1.written u hu).decl
      rw [hplace] at hdecl
      -- a use that means nothing writes nothing
      cases hsite : u.site? with
      | none => simpa only [hsite] using hdecl
      | some x => exact absurd ⟨u, h hu, by rw [hsite]; rfl, hplace⟩ hi
    · exact hw1.note_eq _ hmem

namespace Laid

theorem left (h : Laid F W P (o1 ++ o2) (us1 ++ us2)) : Laid F W P o1 us1 :=
  { h with
    opened := fun x hx => h.opened x (mem_append_left _ hx)
    sites := fun x hx => h.sites x (mem_append_left _ hx)
    regions := fun r hr => h.regions r (mem_append_left _ hr)
    uses := (sublist_append_left ..).trans h.uses }

theorem right (h : Laid F W P (o1 ++ o2) (us1 ++ us2)) : Laid F W P o2 us2 :=
  { h with
    opened := fun x hx => h.opened x (mem_append_right _ hx)
    sites := fun x hx => h.sites x (mem_append_right _ hx)
    regions := fun r hr => h.regions r (mem_append_right _ hr)
    uses := (sublist_append_right ..).trans h.uses }

theorem nodup (h : Laid F W P o us) : (us.flatMap fun u => u.mention.places).Nodup :=
  h.places.sublist (h.uses.flatMap _)

variable {u : Use}

/-- A name in a type is found if there is a use in its place that is. -/
theorem isSome_of_finds (h : Laid F W P o us) (hu : u ∈ us) {i : TypeExprId}
    (hplace : u.mention.place = .type i) (hfinds : W.Finds i) : u.site?.isSome := by
  obtain ⟨u', hu', hsite, hplace'⟩ := hfinds
  -- no two uses have a place in common
  obtain rfl : u' = u := by
    by_contra hne
    have hsymm : Std.Symm (Function.onFun List.Disjoint fun u : Use => u.mention.places) :=
      ⟨fun _ _ hd _ hp hp' => hd hp' hp⟩
    have hdisjoint := (nodup_flatMap.1 h.places).2.forall hu' (h.uses.subset hu) hne
    refine hdisjoint u'.mention.place_mem_places ?_
    rw [hplace', ← hplace]
    exact u.mention.place_mem_places
  exact hsite

theorem isSome_place (h : Laid F W P o us) (hw : Fits F W w) (hu : u ∈ us) {p : Place}
    (hp : p ∈ u.mention.places) : (noteAt w p).isSome := by
  rw [← isSome_noteAt_bare, hw.bare]
  exact (h.noted u (h.uses.subset hu) p hp).1

end Laid

section Sequences

variable {a b : Resolve Unit}

/-- A sequence: the second part sees the variables of the first one completed. -/
theorem Steps.seq (hl : Laid F W P (o1 ++ o2) (us1 ++ us2))
    (ha : Steps F W P env done us1 rs1 o1.completed a)
    (hb : Steps F W P env (done ++ o1.completed) us2 rs2 cs2 b) :
    Steps F W P env done (us1 ++ us2) (rs1 ++ rs2) (o1.completed ++ cs2) (a >>= fun _ => b) :=
      fun s h => by
  obtain ⟨s1, h1, e1⟩ := ha s h
  have hcs : ∀ x ∈ o1.completed, x ∈ W.outline.sites := fun x hx =>
    hl.left.sites x (mem_sites_of_mem_completed hx)
  obtain ⟨s2, h2, e2⟩ := hb s1 (h.after h1 hcs)
  refine ⟨s2, h1.append h2, fun w hw => ?_⟩
  obtain ⟨w1, hrun1, hw1⟩ := e1 w hw
  obtain ⟨w2, hrun2, hw2⟩ := e2 w1 (hw1.fits hl.left.uses.subset hw)
  exact ⟨w2, (Run.bind_eq hrun1).trans hrun2, hw1.append hw2 hl.nodup⟩

namespace Walks

theorem pure : Walks F W P env done .empty [] (pure ()) := fun _ s _ =>
  ⟨s, .refl, fun w _ => ⟨w, rfl, .refl⟩⟩

theorem seq (ha : Walks F W P env done o1 us1 a)
    (hb : Walks F W P env (done ++ o1.completed) o2 us2 b) :
    Walks F W P env done (o1 ++ o2) (us1 ++ us2) (a >>= fun _ => b) := fun hl => by
  rw [completed_append, impls_append]
  exact .seq hl (ha hl.left) (hb hl.right)

theorem first (ha : Walks F W P env done .empty us1 a) (hb : Walks F W P env done o us2 b) :
    Walks F W P env done o (us1 ++ us2) (a >>= fun _ => b) := by
  refine ha.seq ?_
  rw [completed_empty, append_nil]
  exact hb

theorem silent (h1 : o1.completed = []) (h2 : o1.impls = []) (ha : Walks F W P env done o us a) :
    Walks F W P env done (o1 ++ o) us a := fun hl => by
  have hl' : Laid F W P (o1 ++ o) ([] ++ us) := hl
  rw [completed_append, impls_append, h1, h2]
  exact ha hl'.right

end Walks

end Sequences

/-! ## Uses -/

/-- Records what was found, or reports that nothing was. -/
private def settle (u : Use) (annotate : DeclId → Resolve Unit) : Option Entry → Resolve Unit
  | some e => annotate e.decl
  | none => notFound u.mention.span u.mention.what u.name

/-- What settling a use does to a tree. -/
structure Bound (F : State) (u : Use) (w w' : Tree) : Prop extends Unmoved w w' where
  decl : noteAt w' u.mention.place = match u.site? with
    | some x => (declAt F.tree x).map fun d => [d]
    | none => noteAt w u.mention.place
  note_eq : ∀ p ≠ u.mention.place, noteAt w' p = noteAt w p

theorem settle_run (annotate : DeclId → Resolve Unit)
    (hfound : found.map (fun e => some e.decl) = u.site?.map (declAt F.tree))
    (hannotate : ∀ d s,
      annotate d s = .ok () { s with tree := setNoteAt s.tree d u.mention.place })
    (hnames : s.table.names = F.table.names) :
    ∃ s', Walked F W [u] [] [] s s' ∧ ∀ w, (noteAt w u.mention.place).isSome → ∃ w',
      settle u annotate found { s with tree := w } = .ok ()
        { s' with tree := w' } ∧ Bound F u w w' := by
  have hplace : ∀ r, u.mention.place ≠ .call r := by
    cases u.mention <;> exact nofun
  cases found with
  | none =>
    have hsite : u.site? = none := by
      rw [Option.map_none, eq_comm, Option.map_eq_none_iff] at hfound
      exact hfound
    refine ⟨{ s with table :=
      { s.table with faults := s.table.faults.push (u.fault s.table.names) } },
      { Walked.refl with unfound := ?_, misfits := ?_, quiet := ?_ },
      fun w _ => ⟨w, rfl, .refl, by rw [hsite], fun _ _ => rfl⟩⟩
    · rw [← hnames]
      simp [unfound, hsite, Use.fault, Fault.error]
    · have hne : FaultCode.notFoundInScope ≠ .invalidTypeKind := by decide
      simp [faultsOf, Use.fault, Fault.error, hne]
    · intro c hc _
      simp [faultsOf, Use.fault, Fault.error, hc.symm]
  | some e =>
    rw [Option.map_some, eq_comm, Option.map_eq_some_iff] at hfound
    obtain ⟨x, hx, hdecl⟩ := hfound
    refine ⟨s, { Walked.refl with unfound := by simp [hx] }, fun w hw =>
      ⟨_, hannotate _ _, unmoved_setNoteAt .., ?_, fun p hp => noteAt_setNoteAt_of_ne _ hp⟩⟩
    rw [noteAt_setNoteAt_self e.decl hplace hw, hx]
    simp only
    rw [hdecl]
    rfl

theorem ask_eq {f : Scope.Table → Except Abort α} {a : α} (h : f s.table = .ok a) :
    ask f s = .ok a s := by
  unfold ask
  show EStateM.bind _ _ s = _
  rw [EStateM.bind]
  have hget : (get : Resolve State) s = .ok s s := rfl
  simp only [hget, h]
  rfl

theorem lookupValue_run (h : Stands F env done s) (name : NameId) {m : Mention}
    (hm : ∀ n, m ≠ .type n) :
    ∃ found, (∀ w, lookupValue name { s with tree := w } = .ok found { s with tree := w }) ∧
      found.map (fun e => some e.decl) = (Use.mk m name env done).site?.map (declAt F.tree) := by
  obtain ⟨found, hrun, hfound⟩ := h.lookupValue_eq name hm
  exact ⟨found, fun w => ask_eq (f := fun t => t.lookupValue name s.sees) hrun,
    hfound⟩

/-- A use other than a callee: it is looked up and settled. -/
theorem walks_use {look : Resolve (Option Entry)} {next : Option Entry → Resolve Unit}
    (annotate : DeclId → Resolve Unit) (hl : Laid F W P .empty [u]) (h : At F W P env done s)
    (hlook : ∀ w, look { s with tree := w } = .ok found { s with tree := w })
    (hfound : found.map (fun e => some e.decl) = u.site?.map (declAt F.tree))
    (hannotate : ∀ d s, annotate d s = .ok () { s with tree := setNoteAt s.tree d u.mention.place })
    (hnext : next found = settle u annotate found)
    (hplaces : u.mention.places = [u.mention.place]) :
    ∃ s', Walked F W [u] [] [] s s' ∧ ∀ w, Fits F W w → ∃ w',
      (look >>= next) { s with tree := w } = .ok () { s' with tree := w' } ∧
        Wrote F [u] w w' := by
  obtain ⟨s', hs', e⟩ := settle_run annotate hfound hannotate h.names
  refine ⟨s', hs', fun w hw => ?_⟩
  obtain ⟨w', hrun, hb⟩ := e w (hl.isSome_place hw mem_cons_self u.mention.place_mem_places)
  refine ⟨w', (Run.bind_eq (hlook w)).trans (hnext ▸ hrun), hb.toUnmoved, fun u' hu' => ?_,
    fun p hp => ?_⟩
  · rw [mem_singleton.1 hu']
    refine ⟨hb.decl, fun call n hcall => ?_⟩
    rw [hcall] at hplaces
    cases hplaces
  · exact hb.note_eq p fun heq => hp (by simp [hplaces, heq])

theorem walks_ident (n : ExprNode) (name : NameId) :
    Walks F W P env done .empty [⟨.value n, name, env, done⟩] (bindExpr (.ident n name)) := by
  intro hl s h
  obtain ⟨found, hrun, hfound⟩ := lookupValue_run h.stands name (m := .value n) nofun
  exact walks_use (annotateIdent n.record) hl h hrun hfound (fun _ _ => rfl) rfl rfl

theorem walks_bindType : (t : TypeExpr) → isWholeType t = true →
    Walks F W P env done .empty (usesType env done t) (bindType t)
  | .absent _, _ => .pure
  | .name n name, _ => by
    intro hl s h
    obtain ⟨found, hrun, hfound⟩ := h.stands.lookupType_eq name n
    exact walks_use (annotateType n.id) hl h
      (fun w => ask_eq hrun) hfound
      (fun _ _ => rfl) (by cases found <;> rfl) rfl
  | .array _ elem _, h | .ref _ elem _, h | .pointer _ elem, h | .optional _ elem, h
  | .unknown _ elem, h => walks_bindType elem h

private theorem map_decl_eq {found : List Entry} {sites : List Site}
    (h : found.map (fun e => some e.decl) = sites.map (declAt t)) :
    found.map Entry.decl = sites.filterMap (declAt t) := by
  have hsome : found.map Entry.decl = (found.map fun e => some e.decl).filterMap id := by
    rw [filterMap_map, ← filterMap_eq_map]
    rfl
  rw [hsome, h, filterMap_map]
  rfl

/-- A name that is called: all functions with the name are recorded at the call. -/
theorem walks_callee (call : PayloadId) (n : ExprNode) (name : NameId) :
    Walks F W P env done .empty [⟨.callee call n, name, env, done⟩]
      (bindNamedCallee call n name) := by
  intro hl s h
  let u : Use := ⟨.callee call n, name, env, done⟩
  have hne : (Place.ident n.record) ≠ .call call := by
    rintro ⟨⟩
  obtain ⟨fs, hrun, hfunctions⟩ := h.stands.functions_eq name (.callee call n)
  obtain ⟨found, hrun', hfound⟩ := lookupValue_run h.stands name (m := .callee call n)
    (by rintro _ ⟨⟩)
  obtain ⟨s', hs', e⟩ := settle_run (annotateIdent n.record) hfound (fun _ _ => rfl) h.names
  refine ⟨s', hs', fun w hw => ?_⟩
  -- the tree with the candidates recorded
  let f : CallRecord → CallRecord := fun r =>
    { r with candidates := if (fs.map Entry.decl).isEmpty then r.candidates.map fun _ => []
        else some (fs.map Entry.decl) }
  have hset : Unmoved w (setCandidates w f call) := unmoved_setCandidates w f call fun _ => rfl
  have hcandidates : noteAt (setCandidates w f call) (.call call) =
      some (u.functions.filterMap (declAt F.tree)) := by
    have hcall := hl.isSome_place hw mem_cons_self (mem_cons_of_mem _ mem_cons_self)
    simp only [noteAt, Option.isSome_map] at hcall
    obtain ⟨x, hx⟩ := Option.isSome_iff_exists.1 hcall
    rw [noteAt_setCandidates_self f call hx, ← map_decl_eq hfunctions]
    show some (Option.getD (if _ then _ else _) []) = _
    split
    · next hempty =>
      rw [isEmpty_iff.1 hempty]
      cases x.candidates <;> rfl
    · rfl
  obtain ⟨w', hrun1, hb⟩ := e (setCandidates w f call) (by
    exact hl.isSome_place hw mem_cons_self mem_cons_self)
  have hask := ask_eq (s := { s with tree := w }) (f := fun t => t.functions name) hrun
  refine ⟨w', (Run.bind_eq hask).trans ((Run.bind_eq (hrun' _)).trans hrun1),
    hset.trans hb.toUnmoved, fun u' hu' => ?_, fun p hp => ?_⟩
  · rw [mem_singleton.1 hu']
    refine ⟨?_, fun call' n' hcall => ?_⟩
    · have hdecl := hb.decl
      rwa [show noteAt (setCandidates w f call) u.mention.place = noteAt w u.mention.place from
        noteAt_setCandidates_of_ne f call hne] at hdecl
    · cases hcall
      exact (hb.note_eq _ hne.symm).trans hcandidates
  · simp only [flatMap_cons, flatMap_nil, append_nil, Mention.places, mem_cons,
      not_mem_nil, or_false, not_or] at hp
    rw [hb.note_eq p hp.1, noteAt_setCandidates_of_ne f call hp.2]

/-! ## Variables, scopes and implementations -/

theorem walked_complete {site : Site} {d : DeclId} (hdecl : declAt F.tree site = some d) :
    Walked F W [] [] [site] s { s with completed := d :: s.completed } :=
  { Walked.refl with
    completed := fun d' => by
      simp only [mem_cons, not_mem_nil, or_false, exists_eq_left, hdecl, Option.some.injEq]
      rw [or_comm, eq_comm] }

theorem notATrait_eq (span : Span) (shown : Text) (decl? : Option Decl) :
    (notATrait span shown decl?).code = .invalidTypeKind ∧
      (notATrait span shown decl?).span = span := by
  unfold notATrait
  cases decl? with
  | none => exact ⟨rfl, rfl⟩
  | some d =>
    simp only
    split <;> exact ⟨rfl, rfl⟩

/-- Recording an implementation. Of the tree, it reads two types only. -/
theorem addImplementation_run (n : StmtNode) {r q : Option TypeRecord} (h : At F W P env done s)
    (htarget : target.id = x.target)
    (hrecords : ∀ T, Wrote F W.uses F.tree T → T.stmt? n.id = some ⟨.impl, n.span, n.record⟩ ∧
      (T.stmts.impls.get? n.record.index).map ImplRecord.target = some x.target ∧
      traitOf? T n.record = r ∧ T.type? x.target = q) :
    ∃ s', Walked F W [] [n.record] [] s s' ∧ ∀ w : Tree,
      (trait.node?.bind fun n => w.type? n.id) = r → (target.node?.bind fun n => w.type? n.id) = q →
      addImplementation n trait target { s with tree := w } = .ok () { s' with tree := w } := by
  have hopen (w : Tree) : addImplementation n trait target { s with tree := w } = _ :=
    Run.bind_eq rfl
  -- where nothing is done, there is nothing to be said of the implementation either
  have hnothing (hno : ∀ T, Wrote F W.uses F.tree T →
      misfit? T F.table n.record = none ∧ implements T F.table.decls n.record = false) :
      Walked F W [] [n.record] [] s s :=
    { Walked.refl (W := W) with
      misfits := fun T hT => by simp [(hno T hT).1]
      impls := fun T hT => ⟨[], by simp, by simp [(hno T hT).2]⟩ }
  cases r with
  | none =>
    refine ⟨s, hnothing fun T hT => ?_, fun w ht _ => (hopen w).trans (by simp only [ht]; rfl)⟩
    obtain ⟨-, -, htrait, -⟩ := hrecords T hT
    simp [misfit?, implements, htrait]
  | some tr =>
    cases hvalid : tr.decl.isValid with
    | false =>
      refine ⟨s, hnothing fun T hT => ?_,
        fun w ht _ => (hopen w).trans (by simp only [ht, hvalid]; rfl)⟩
      exact idle_of_decl (hrecords T hT).2.2.1 hvalid _
    | true =>
      cases htrait : (s.table.decls.get? tr.decl).any Decl.isTrait with
      | true =>
        refine ⟨{ s with impls := s.impls.add ⟨tr.decl, target.id, (q.map TypeRecord.decl).getD 0,
            n.id, n.span⟩ }, { Walked.refl (W := W) with
              misfits := fun T hT => ?_, impls := fun T hT => ?_ },
          fun w ht ht' => (hopen w).trans (by rw [← ht']; simp only [ht, hvalid, htrait]; rfl)⟩
        · obtain ⟨-, -, hT, -⟩ := hrecords T hT
          simp [misfit?, hT, ← h.decls, htrait]
        · obtain ⟨hstmt, htargets, hT, rfl⟩ := hrecords T hT
          have hone : implements T F.table.decls n.record = true := by
            simp [implements, hT, ← h.decls, htrait]
          refine ⟨_, rfl, ?_⟩
          rw [filter_cons_of_pos hone]
          refine .cons ⟨hstmt, by rw [hT]; rfl,
            htargets.trans (congrArg some htarget.symm), ?_⟩ .nil
          rw [htarget]
      | false =>
        let f := notATrait tr.span (s.table.names.display tr.name) (s.table.decls.get? tr.decl)
        have hcode : f.code = .invalidTypeKind := (notATrait_eq ..).1
        have hne : FaultCode.invalidTypeKind ≠ .notFoundInScope := by decide
        refine ⟨{ s with table := { s.table with faults := s.table.faults.push f } },
          { Walked.refl (W := W) with
            unfound := ?_, misfits := fun T hT => ?_,
            quiet := fun c hc hc' => ?_, impls := fun T hT => ?_ },
          fun w ht _ => (hopen w).trans (by simp only [ht, hvalid, htrait]; rfl)⟩
        · simp [unfound, hcode, hne]
        · obtain ⟨-, -, hT, -⟩ := hrecords T hT
          simp [faultsOf, hcode, misfit?, hT, hvalid, ← h.decls, ← h.names, htrait, f]
        · simp [faultsOf, hcode, hc'.symm]
        · obtain ⟨-, -, hT, -⟩ := hrecords T hT
          exact ⟨[], by simp, by simp [implements, hT, ← h.decls, htrait]⟩

/-- A type that an implementation reads is the same on all trees: the walk never writes to it, or it
is a name that was found. -/
theorem Laid.type?_eq (hl : Laid F W P o us) (hi : IsHead F.tree.bare W.outline.regions i)
    (hus : usesType env done (F.tree.bare.typeExpr i) ⊆ us) {v v' w' : Tree} (hv : Fits F W v')
    (hw : Fits F W w') (hwrote : ∀ u ∈ us, u.Written F.tree v v')
    (hwrote' : ∀ u ∈ us, u.Written F.tree w w') :
    w'.type? i = v'.type? i := by
  refine type?_congr (hw.bare.trans hv.bare.symm) ?_
  by_cases hfinds : W.Finds i
  · -- uses in types are at names, so that the whole type is one
    have ⟨u, hu, _, hplace⟩ := hfinds
    have hkind := (hl.noted u hu _ u.mention.place_mem_places).2 i hplace
    obtain ⟨hnone, -⟩ | ⟨r, hr, -, -, hname⟩ := typeExpr_cases F.tree.bare i
    · rw [hnone] at hkind
      cases hkind
    rw [hr] at hkind
    rw [hname (Option.some.inj hkind)] at hus
    have hu := hus mem_cons_self
    obtain ⟨y, hy⟩ := Option.isSome_iff_exists.1 (hl.isSome_of_finds hu rfl hfinds)
    have hdecl := (hwrote _ hu).decl
    have hdecl' := (hwrote' _ hu).decl
    rw [hy] at hdecl hdecl'
    exact hdecl'.trans hdecl.symm
  · exact (hw.heads _ hi hfinds).trans (hv.heads _ hi hfinds).symm

theorem bind_type? (h : w.bare = t.bare) (i : TypeExprId) :
    ((t.bare.typeExpr i).node?.bind fun n => w.type? n.id) = w.type? i := by
  obtain ⟨hnone, hno⟩ | ⟨r, -, hnode, -⟩ := typeExpr_cases t.bare i
  · rw [← h, Tree.type?_bare, Option.map_eq_none_iff] at hnone
    rw [hnone]
    obtain hno | hno := hno <;> rw [hno] <;> rfl
  · rw [hnode]
    rfl

theorem steps_implement (n : StmtNode)
    (htrait : isWholeType trait = true) (htarget : isWholeType target = true)
    (hregion : .impl n.record ∈ W.outline.regions)
    (hget : F.tree.bare.stmts.impls.get? n.record.index = some x)
    (hx : trait = F.tree.bare.typeExpr x.trait) (hy : target = F.tree.bare.typeExpr x.target)
    (hstmt : F.tree.bare.stmt? n.id = some ⟨.impl, n.span, n.record⟩)
    (hl : Laid F W P .empty (usesType env done trait ++ usesType env done target)) :
    Steps F W P env done (usesType env done trait ++ usesType env done target) [n.record] []
      ((bindType trait >>= fun _ => bindType target) >>= fun _ =>
        addImplementation n trait target) := by
  intro s h
  obtain ⟨s1, h1, e1⟩ := (walks_bindType trait htrait).first (walks_bindType target htarget) hl s h
  subst hx hy
  -- what is read is said for the tree of the first walk
  obtain ⟨v, -, hv⟩ := e1 F.tree .refl
  have hfits := hv.fits hl.uses.subset .refl
  have htraits {w w' : Tree} (hw : Fits F W w') :=
    hl.type?_eq (w := w) ⟨_, x, hregion, hget, .inl rfl⟩
    (subset_append_left ..) hfits hw hv.written
  have htargets {w w' : Tree} (hw : Fits F W w') :=
    hl.type?_eq (w := w) ⟨_, x, hregion, hget, .inr rfl⟩
    (subset_append_right ..) hfits hw hv.written
  have hid : (F.tree.bare.typeExpr x.target).id = x.target := by
    obtain ⟨-, hno | hno⟩ | ⟨r, -, -, hid, -⟩ := typeExpr_cases F.tree.bare x.target
    · rw [hno]
      rfl
    · rw [hno] at htarget
      cases htarget
    · exact hid
  obtain ⟨s2, h2, e2⟩ := addImplementation_run (r := v.type? x.trait) (q := v.type? x.target) n
    (h.after h1 nofun) hid fun T hT => by
    have hfits := hT.fits (fun _ => id) .refl
    have hwritten := fun u hu => hT.written u (hl.uses.subset hu)
    obtain ⟨y, hy, rfl⟩ := Option.map_eq_some_iff.1 ((Arena.get?_map ..).symm.trans
      ((congrArg (fun t : Tree => t.stmts.impls.get? n.record.index) hT.bare).trans hget))
    refine ⟨(congrArg (fun t : Tree => t.stmt? n.id) hT.bare).trans hstmt, by rw [hy]; rfl, ?_,
      htargets hfits hwritten⟩
    rw [traitOf?, hy]
    exact htraits hfits hwritten
  have h12 := h1.append h2
  rw [append_nil] at h12
  refine ⟨s2, h12, fun w hw => ?_⟩
  obtain ⟨w1, hrun1, hw1⟩ := e1 w hw
  have hfits1 := hw1.fits hl.uses.subset hw
  refine ⟨w1, (Run.bind_eq hrun1).trans (e2 w1 ?_ ?_), hw1⟩
  · rw [bind_type? hfits1.bare]
    exact htraits hfits1 hw1.written
  · rw [bind_type? hfits1.bare]
    exact htargets hfits1 hw1.written

private theorem at_entered {i : ScopeId} (hl : Laid F W P (o.enclose r) us)
    (h : At F W P env done s) (hi : scopeAt F.tree r = some (some i)) :
    i.index < s.table.size ∧
      At F W r (o.frame r :: env) done { s with table := { s.table with current := i } } := by
  obtain ⟨i', p, sc, hi', -, hget, hp, hparent, hless, hlists⟩ :=
    hl.opened (none, o.frame r) mem_cons_self
  obtain rfl : i' = i := by
    rw [show (o.frame r).region = r from rfl, hi] at hi'
    cases hi'
    rfl
  obtain rfl : p = s.table.current := by
    rw [Option.getD_none, h.here] at hp
    cases hp
    rfl
  have hlt : i'.index < s.table.size := by
    rw [size, h.scopes]
    exact lt_size_of_get? hget
  refine ⟨hlt, { h with current := hlt, here := hi, sees := ?_, env_mem := ?_ }⟩
  · refine ⟨i', sc, rfl, hget, fun q hq => ?_, hlists, by rw [hparent]; exact h.sees⟩
    rw [hparent] at hq
    cases hq
    exact hless
  · intro f hf b hb
    obtain rfl | hf := mem_cons.1 hf
    · exact hl.sites b.2 (o.values_mem b hb)
    · exact h.env_mem f hf b hb

/-- A region: its recorded scope is entered, its inside is walked, and the walk comes back. -/
theorem Steps.enclose (span : Span) {get? : State → Option α}
    {scope : α → Option ScopeId} {walk : α → Resolve Unit} {inside : Resolve Unit}
    (hget : ∀ s, (get? s).map scope = scopeAt s.tree r)
    (hsame : ∀ s x, (∀ x ∈ o.sites, declAt s.tree x = declAt F.tree x) → get? s = some x →
      walk x = inside)
    (hwalk : Walks F W r (o.frame r :: env) done o us inside) (hl : Laid F W P (o.enclose r) us) :
    Steps F W P env done us o.impls o.completed (get >>= fun s =>
      Run.need (get? s) >>= fun x => inScope (scope x) span (walk x)) := by
  intro s h
  obtain ⟨i, p, sc, hi, -⟩ := hl.opened (none, o.frame r) mem_cons_self
  have hl' : Laid F W r o us :=
    { hl with
      opened := fun x hx => by
        have hmem : (some (x.1.getD r), x.2) ∈ (o.enclose r).scopes :=
          mem_cons_of_mem _ (mem_map.2 ⟨x, hx, rfl⟩)
        exact hl.opened _ hmem
      regions := fun r' hr' => hl.regions r' (mem_cons_of_mem _ hr') }
  obtain ⟨hlt, hat⟩ := at_entered hl h hi
  obtain ⟨s1, h1, e1⟩ := hwalk hl' _ hat
  refine ⟨{ s1 with table := { s1.table with current := s.table.current } },
    { h1 with current := rfl }, fun w hw => ?_⟩
  obtain ⟨w', hinside, hw'⟩ := e1 w hw
  refine ⟨w', ?_, hw'⟩
  have hrecord := (hget { s with tree := w }).trans
    ((hw.regions r (hl.regions r mem_cons_self)).trans hi)
  obtain ⟨x, hx, hscope⟩ := Option.map_eq_some_iff.1 hrecord
  refine (Run.bind_eq rfl).trans ((Run.bind_eq (by rw [hx]; rfl)).trans ?_)
  rw [hscope, hsame _ x (fun x hx => hw.sites x (hl.sites x hx)) hx]
  have hback : s.table.current.index < s1.table.size := by
    rw [size, h1.scopes]
    exact h.current
  have hgo := onTable_eq (s := { s with tree := w }) (goTo_eq hlt)
  have hgo' := onTable_eq (s := { s1 with tree := w' }) (goTo_eq hback)
  refine (Run.bind_eq rfl).trans ((Run.bind_eq hgo).trans ((Run.bind_eq hinside).trans ?_))
  show EStateM.map .. = _
  rw [EStateM.map, hgo']

/-! ## The walk -/

theorem impls_outlineEach (site : Nat → Site) (i : Nat) (names : List (NameId × Span)) :
    (outlineEach site i names).impls = [] := by
  induction names generalizing i with
  | nil => rfl
  | cons a as ih =>
    rw [outlineEach, impls_append, ih]
    rfl

theorem completed_outlineEach {site : Nat → Site} (h : ∀ i, (site i).kind ≠ .var) (i : Nat)
    (names : List (NameId × Span)) : (outlineEach site i names).completed = [] := by
  induction names generalizing i with
  | nil => rfl
  | cons a as ih =>
    rw [outlineEach, Outline.completed_append, ih]
    simp [Outline.completed, Outline.declare, h]

theorem walks_each {type : α → TypeExpr} {bind : List α → Resolve Unit} {xs : List α}
    (hnil : bind [] = pure ())
    (hcons : ∀ x xs, bind (x :: xs) = bindType (type x) >>= fun _ => bind xs)
    (h : xs.all (fun x => isWholeType (type x)) = true) :
    Walks F W P env done .empty (xs.flatMap fun x => usesType env done (type x)) (bind xs) := by
  induction xs with
  | nil =>
    rw [hnil]
    exact .pure
  | cons x xs ih =>
    obtain ⟨hx, hxs⟩ := Bool.and_eq_true_iff.1 h
    rw [hcons]
    exact (walks_bindType (type x) hx).first (ih hxs)

theorem walks_completeVar (n : StmtNode) (name : NameId) (nameSpan : Span) :
    Walks F W P env done (.declare name (.var n.record) nameSpan) [] (do
      let r ← Run.need ((← get).tree.stmts.vars.get? n.record.index)
      complete r.decl) := by
  intro hl s h
  have hsite := hl.sites (.var n.record) mem_cons_self
  obtain ⟨d, hd⟩ := Option.isSome_iff_exists.1 (hl.declared _ hsite)
  refine ⟨_, walked_complete hd, fun w hw => ?_⟩
  obtain ⟨r, hr, hdecl⟩ := Option.map_eq_some_iff.1 ((hw.sites _ hsite).trans hd)
  refine ⟨w, (Run.bind_eq rfl).trans ((Run.bind_eq (by rw [hr]; rfl)).trans ?_), .refl⟩
  rw [hdecl]
  rfl

def bindBody : Expr → Resolve Unit
  | .block _ stmts => bindStmts stmts
  | e => bindExpr e

def bindCallee (call : PayloadId) : Expr → Resolve Unit
  | .ident c name => bindNamedCallee call c name
  | e => bindExpr e

theorem bindStmt_func (n : StmtNode) (name : NameId) (nameSpan : Span) (params : List ParamForm)
    (result : TypeExpr) (body : Expr) (modifier : Modifier) :
    bindStmt (.func n name nameSpan params result body modifier) = (do
      bindParams params
      bindType result
      let r ← Run.need ((← get).tree.stmts.funcs.get? n.record.index)
      inScope r.scope n.span (bindBody body)) := by
  cases body <;> rfl

theorem bindExpr_call (n : ExprNode) (callee : Expr) (args : List Expr) :
    bindExpr (.call n callee args) = (do
      bindCallee n.record callee
      bindExprs args) := by
  cases callee <;> rfl

mutual

theorem walks_bindStmt {P : Region} {env : List Frame} {done : List Site} :
    (s : Stmt) → isWholeStmt s = true → RecordedStmt F.tree.bare s →
      Walks F W P env done (outlineStmt s) (usesStmt env done s) (bindStmt s)
  | .absent _, _, _ => .pure
  | .var n name nameSpan type value modifier, h, hr => by
    obtain ⟨htype, hvalue⟩ := Bool.and_eq_true_iff.1 h
    refine .first (walks_bindType type htype) ?_
    have hvar := (@walks_bindExpr P env done value hvalue hr.2.2).seq
      (walks_completeVar n name nameSpan)
    rwa [append_nil] at hvar
  | .assign _ target value, h, hr => by
    obtain ⟨htarget, hvalue⟩ := Bool.and_eq_true_iff.1 h
    exact (walks_bindExpr target htarget hr.1).seq (walks_bindExpr value hvalue hr.2)
  | .func n name nameSpan params result body modifier, h, hr => by
    obtain ⟨h, hbody⟩ := Bool.and_eq_true_iff.1 h
    obtain ⟨hparams, hresult⟩ := Bool.and_eq_true_iff.1 h
    rw [outlineStmt_func, usesStmt_func, bindStmt_func]
    refine .silent rfl rfl (.first (walks_each rfl (fun _ _ => rfl) hparams)
      (.first (walks_bindType result hresult) ?_))
    refine Steps.enclose _ (fun _ => rfl) (fun _ _ _ _ => rfl) ?_
    refine .silent (completed_outlineEach (by simp [Site.kind]) _ _) (impls_outlineEach ..) ?_
    have hother := @walks_bindExpr (.func n.record)
      ((outlineInside n.record params body).frame (.func n.record) :: env) done body hbody hr.2.2.2
    cases body with
    | block b stmts => exact .silent rfl rfl (walks_bindStmts stmts hbody hr.2.2.2.2)
    | _ => exact hother
  | .typeDecl n kind name nameSpan fields variants methods, h, hr => by
    obtain ⟨h, hmethods⟩ := Bool.and_eq_true_iff.1 h
    obtain ⟨hfields, hvariants⟩ := Bool.and_eq_true_iff.1 h
    refine .silent rfl rfl (Steps.enclose _ (fun _ => rfl) (fun _ _ _ _ => rfl) ?_)
    refine .first (walks_each rfl (fun _ _ => rfl) hfields)
      (.first (walks_each rfl (fun _ _ => rfl) hvariants) ?_)
    refine .silent (completed_outlineEach (by simp [Site.kind]) _ _) (impls_outlineEach ..)
      (.silent (completed_outlineEach (by simp [Site.kind]) _ _) (impls_outlineEach ..) ?_)
    exact walks_bindStmts methods hmethods hr.2.2
  | .impl n trait target methods, h, hr => by
    obtain ⟨h, hmethods⟩ := Bool.and_eq_true_iff.1 h
    obtain ⟨htrait, htarget⟩ := Bool.and_eq_true_iff.1 h
    obtain ⟨⟨r, hr, hx, hy, hstmt⟩, hrmethods⟩ := hr
    intro hl
    have hinside := @walks_bindStmts (.impl n.record)
      ((outlineStmts methods).frame (.impl n.record) :: env)
      done methods hmethods hrmethods
    rw [usesStmt, ← append_assoc, ← empty_append (outlineStmt _)] at hl
    have hwalk := Steps.seq hl
      (steps_implement n htrait htarget (hl.regions _ mem_cons_self) hr hx hy hstmt hl.left) (by
        rw [completed_empty, append_nil]
        exact .enclose n.span (fun _ => rfl) (fun _ _ _ _ => rfl) hinside hl.right)
    rw [bind_assoc, bind_assoc, append_assoc] at hwalk
    exact hwalk
  | .expr _ e _, h, hr | .jump _ _ e, h, hr => walks_bindExpr e h hr

theorem walks_bindStmts {P : Region} {env : List Frame} {done : List Site} :
    (ss : List Stmt) → areWholeStmts ss = true → RecordedStmts F.tree.bare ss →
      Walks F W P env done (outlineStmts ss) (usesStmts env done ss) (bindStmts ss)
  | [], _, _ => .pure
  | s :: ss, h, hr => by
    obtain ⟨hs, hss⟩ := Bool.and_eq_true_iff.1 h
    exact (walks_bindStmt s hs hr.1).seq (walks_bindStmts ss hss hr.2)

theorem walks_bindExpr {P : Region} {env : List Frame} {done : List Site} :
    (e : Expr) → isWholeExpr e = true → RecordedExpr F.tree.bare e →
      Walks F W P env done (outlineExpr e) (usesExpr env done e) (bindExpr e)
  | .absent _, _, _ | .literal _ _ _, _, _ => .pure
  | .ident n name, _, _ => walks_ident n name
  | .binary _ _ left right, h, hr | .index _ left right, h, hr
  | .whileLoop _ left right, h, hr => by
    obtain ⟨hleft, hright⟩ := Bool.and_eq_true_iff.1 h
    exact (walks_bindExpr left hleft hr.1).seq (walks_bindExpr right hright hr.2)
  | .unary _ _ e, h, hr | .ref _ _ e, h, hr | .deref _ e, h, hr | .field _ e _, h, hr =>
    walks_bindExpr e h hr
  | .call n callee args, h, hr => by
    obtain ⟨hcallee, hargs⟩ := Bool.and_eq_true_iff.1 h
    rw [usesExpr_call, bindExpr_call]
    have hother := @walks_bindExpr P env done callee hcallee hr.2.1
    have hrest := @walks_bindExprs P env (done ++ (outlineExpr callee).completed) args hargs hr.2.2
    cases callee with
    | ident c name => exact (walks_callee n.record c name).seq hrest
    | _ => exact hother.seq hrest
  | .array _ elems elemType, h, hr => by
    obtain ⟨helems, htype⟩ := Bool.and_eq_true_iff.1 h
    exact .first (walks_bindType elemType htype) (walks_bindExprs elems helems hr.1)
  | .cast _ value type, h, hr => by
    obtain ⟨hvalue, htype⟩ := Bool.and_eq_true_iff.1 h
    have hcast := (@walks_bindExpr P env done value hvalue hr.1).seq (walks_bindType type htype)
    rwa [append_empty] at hcast
  | .block n stmts, h, hr => by
    refine Steps.enclose _ (fun _ => rfl) (fun _ _ _ _ => rfl) ?_
    exact walks_bindStmts stmts h hr.2
  | .ifElse _ cond body arms, h, hr => by
    obtain ⟨h, harms⟩ := Bool.and_eq_true_iff.1 h
    obtain ⟨hcond, hbody⟩ := Bool.and_eq_true_iff.1 h
    exact (walks_bindExpr cond hcond hr.1).seq
      ((walks_bindExpr body hbody hr.2.1).seq (walks_bindArms arms harms hr.2.2))
  | .forLoop n binding bindingSpan iter body, h, hr => by
    obtain ⟨hiter, hbody⟩ := Bool.and_eq_true_iff.1 h
    refine (walks_bindExpr iter hiter hr.2.1).seq ?_
    let d : DeclId := (declAt F.tree (.loop n.record)).getD 0
    -- the variable is completed where the body begins
    have hcomplete : ∀ env, Walks F W (.loop n.record) env (done ++ (outlineExpr iter).completed)
        (.declare binding (.loop n.record) bindingSpan) [] (complete d) := fun _ hl s _ => by
      obtain ⟨d', hd⟩ := Option.isSome_iff_exists.1
        (hl.declared _ (hl.sites (.loop n.record) mem_cons_self))
      rw [show d = d' from congrArg (·.getD 0) hd]
      exact ⟨_, walked_complete hd, fun w _ => ⟨w, rfl, .refl⟩⟩
    refine Steps.enclose _ (fun _ => rfl) (fun s r hs hget => ?_)
      ((hcomplete _).seq (walks_bindExpr body hbody hr.2.2))
    have hdecl := hs (.loop n.record) mem_cons_self
    rw [declAt, hget] at hdecl
    rw [show d = r.decl from congrArg (·.getD 0) hdecl.symm]

theorem walks_bindExprs {P : Region} {env : List Frame} {done : List Site} :
    (es : List Expr) → areWholeExprs es = true → RecordedExprs F.tree.bare es →
      Walks F W P env done (outlineExprs es) (usesExprs env done es) (bindExprs es)
  | [], _, _ => .pure
  | e :: es, h, hr => by
    obtain ⟨he, hes⟩ := Bool.and_eq_true_iff.1 h
    exact (walks_bindExpr e he hr.1).seq (walks_bindExprs es hes hr.2)

theorem walks_bindArms {P : Region} {env : List Frame} {done : List Site} :
    (arms : List Arm) → areWholeArms arms = true → RecordedArms F.tree.bare arms →
      Walks F W P env done (outlineArms arms) (usesArms env done arms) (bindArms arms)
  | [], _, _ => .pure
  | .mk _ cond body _ :: arms, h, hr => by
    obtain ⟨h, harms⟩ := Bool.and_eq_true_iff.1 h
    obtain ⟨hcond, hbody⟩ := Bool.and_eq_true_iff.1 h
    exact (walks_bindExpr cond hcond hr.1).seq
      ((walks_bindExpr body hbody hr.2.1).seq (walks_bindArms arms harms hr.2.2))

end

end UnitCheck.Resolution
