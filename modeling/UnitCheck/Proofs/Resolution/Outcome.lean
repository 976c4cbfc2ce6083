import UnitCheck.Proofs.Resolution.Bind

/-!
# Both walks together

From a table that knows the built-in types only, both walks run one after the other. `Outcome` is
what they leave behind on a well-formed tree: the declarations of all sites, what every use has
recorded, and the faults about names that were not found. The tree differs from the one before in
annotations only. -/

namespace UnitCheck.Resolution

open List Scope.Table Syntax
open Run (Gives)

/-! ## The fresh table -/

theorem tags_foldl_install (as : List String) (t : Scope.Table) :
    (as.foldl install t).decls.tags =
      t.decls.tags ++ (internAll t.names as).map fun i => (.type, some i) := by
  induction as generalizing t with
  | nil => exact (append_nil _).symm
  | cons a as ih =>
    have hpush : (t.install a).decls.tags = t.decls.tags ++ [(.type, some (t.names.intern a).2)] :=
      Decls.tags_push ..
    rw [foldl_cons, ih, hpush, append_assoc]
    rfl

variable {t : Scope.Table} {i : NameId} {F : State}

theorem lookup?_foldl_install_of_lookup? (as : List String) {b : Text}
    (h : t.names.lookup? i = some b) :
    (as.foldl install t).names.lookup? i = some b := by
  induction as generalizing t with
  | nil => exact h
  | cons a as ih => exact ih (NameTable.lookup?_intern_of_lookup? h a)

/-- The names of built-in types are known by the identifiers that they were given. -/
theorem lookup?_foldl_install (as : List String) {k : Nat} {a : String}
    (ha : as[k]? = some a) (hi : (internAll t.names as)[k]? = some i) :
    (as.foldl install t).names.lookup? i = some (Text.ofString a).composed := by
  induction as generalizing t k with
  | nil => simp at ha
  | cons a' as ih =>
    cases k with
    | zero =>
      cases ha
      cases hi
      exact lookup?_foldl_install_of_lookup? as (NameTable.lookup?_intern ..)
    | succ k => exact ih ha hi

theorem foldl_install (as : List String) {sc : Scope} (hscopes : t.scopes = #[sc]) :
    ∃ sc', (as.foldl install t).scopes = #[sc'] ∧ sc'.parent = sc.parent ∧
      sc'.values = sc.values ∧
      sc'.types.map key = (((internAll t.names as).zipIdx t.decls.size).map fun x =>
        (x.1, some ⟨x.2 + 1⟩, DeclKind.type)).reverse ++ sc.types.map key ∧
      (as.foldl install t).decls.size = t.decls.size + as.length ∧
      (as.foldl install t).decls.log = (((internAll t.names as).zipIdx t.decls.size).map fun x =>
        ⟨⟨⟨x.2 + 1⟩, .type, .zero⟩, x.1, .root⟩).reverse ++ t.decls.log ∧
      (as.foldl install t).current = t.current ∧
      (as.foldl install t).faults = t.faults := by
  induction as generalizing t sc with
  | nil => exact ⟨sc, hscopes, rfl, rfl, rfl, rfl, rfl, rfl, rfl⟩
  | cons a as ih =>
    have hdecls : (t.install a).decls.size = t.decls.size + 1 := Array.size_push _
    have hnames : (t.install a).names = (t.names.intern a).1 := rfl
    have hroot : (t.install a).scopes = #[{ sc with
        types := ((t.names.intern a).2, ⟨⟨t.decls.size + 1⟩, .type, .zero⟩) :: sc.types }] := by
      rw [scopes_install, hscopes]
      rfl
    have hlog : (t.install a).decls.log =
        ⟨⟨⟨t.decls.size + 1⟩, .type, .zero⟩, (t.names.intern a).2, .root⟩ :: t.decls.log :=
      Decls.log_push ..
    obtain ⟨sc', h1, h2, h3, h4, h5, h6, h7, h8⟩ := ih hroot
    refine ⟨sc', h1, h2, h3, ?_, ?_, ?_, h7, h8⟩
    · rw [h4, internAll, hdecls, hnames]
      simp [key]
    · rw [foldl_cons, length_cons]
      omega
    · rw [foldl_cons, h6, internAll, hdecls, hnames, hlog]
      simp

theorem initial_table (names : NameTable) (t : Tree) :
    ∃ sc, (initial names).scopes = #[sc] ∧ sc.parent = none ∧ sc.values = [] ∧
      sc.types.map key = ((builtinTypes names).map (keyIn t)).reverse ∧
      (initial names).decls.size = preludeNames.length ∧
      (initial names).decls.log = ((builtinTypes names).map fun b =>
        Item.declared t .root ⟨none, b.1, b.2, .zero⟩).reverse ∧
      (initial names).current = .root ∧ (initial names).faults = #[] := by
  obtain ⟨sc, h1, h2, h3, h4, h5, h6, h7, h8⟩ := foldl_install preludeNames
    (t := ⟨#[.fresh .global .mutable none .zero], .root, .empty, names, #[]⟩) rfl
  refine ⟨sc, h1, h2, h3, ?_, h5.trans (Nat.zero_add _), ?_, h7, h8⟩
  · rw [h4, builtinTypes, map_map]
    exact append_nil _
  · rw [builtinTypes, map_map]
    exact h6.trans (append_nil _)

/-- A table with one scope, the root, which binds the built-in types. -/
structure FreshTable (t : Tree) (table : Scope.Table) : Prop where
  linked : table.Linked
  size : table.size = 1
  current : table.current = .root
  root : ∃ sc, table.get? .root = some sc ∧ sc.parent = none ∧ sc.values.map key = [] ∧
    sc.types.map key = ((builtinTypes t.names).map (keyIn t)).reverse
  decls : table.decls.size = preludeNames.length
  tags : table.decls.tags =
    (internAll t.names preludeNames).map fun i => (.type, some i)
  names : ∀ {k : Nat} {a : String} {i : NameId}, preludeNames[k]? = some a →
    (internAll t.names preludeNames)[k]? = some i →
    table.names.lookup? i = some (Text.ofString a).composed
  log : table.decls.log = ((builtinTypes t.names).map fun b =>
    Item.declared t .root ⟨none, b.1, b.2, .zero⟩).reverse
  faults : table.faults = #[]
  accounts : table.Accounts

theorem freshTable_initial (t : Tree) : FreshTable t (.initial t.names) := by
  obtain ⟨sc, hscopes, hparent, hvalues, htypes, hdecls, hlog, hcurrent, hfaults⟩ :=
    initial_table t.names t
  have hlinked := linked_initial t.names
  have haccounts := accounts_initial t.names
  have htags : (initial t.names).decls.tags = _ := tags_foldl_install ..
  have hnames : ∀ {k : Nat} {a : String} {i : NameId}, preludeNames[k]? = some a →
      (internAll t.names preludeNames)[k]? = some i →
      (initial t.names).names.lookup? i = some (Text.ofString a).composed :=
    lookup?_foldl_install _
      (t := ⟨#[.fresh .global .mutable none .zero], .root, .empty, t.names, #[]⟩)
  generalize initial t.names = table at *
  have hroot : table.get? .root = some sc := by
    rw [get?, hscopes]
    rfl
  exact ⟨hlinked, congrArg Array.size hscopes, hcurrent,
    ⟨sc, hroot, hparent, by rw [hvalues]; rfl, htypes⟩, hdecls, htags, hnames,
    hlog, hfaults, haccounts⟩

/-! ## Both walks -/

variable {t : Tree} {table : Scope.Table}

def extent (t : Tree) : Extent := ⟨outline t, uses t⟩

theorem noted_uses (t : Tree) : Noted t.bare (uses t) := (traced_stmts _ (recorded_bare t)).noted

theorem FreshTable.ready (hfresh : FreshTable t table) (h : WellFormed t) :
    Ready .root (outline t) ⟨t, table, .empty, []⟩ where
  linked := hfresh.linked
  here := by
    rw [hfresh.current]
    rfl
  regions := h.regions
  sites := h.sites
  backed := (traced_program t).toBacked

/-- Behind the first walk the second one can start: all scopes are there, the root sees its frame,
and no two sites have one declaration. -/
theorem FreshTable.between (hfresh : FreshTable t table)
    (hF : Collects .root (outline t) ⟨t, table, .empty, []⟩ F) (h : WellFormed t) :
    At F (extent t) .root [rootFrame t] [] F ∧
      Laid F (extent t) .root (outline t) (uses t) := by
  have hdecls : ∀ x ∈ (outline t).sites, (declAt F.tree x).isSome := fun x hx => by
    have hmem := mem_map_of_mem (f := declAt F.tree) hx
    rw [hF.numbered] at hmem
    obtain ⟨_, -, hn⟩ := mem_map.1 hmem
    exact hn ▸ rfl
  have hdistinct : ((outline t).sites.map (declAt F.tree)).Nodup := by
    rw [hF.numbered]
    exact (nodup_range' ..).map fun _ _ h => by cases h; rfl
  have hcurrent : F.table.current = .root := hF.current.trans hfresh.current
  constructor
  · obtain ⟨sc, hroot, hparent, hvalues, htypes⟩ := hfresh.root
    rw [← hfresh.current] at hroot
    obtain ⟨sc', hroot', hparent', hvalues', htypes'⟩ := hF.here hroot
    rw [show (⟨t, table, .empty, []⟩ : State).table.current = .root from hfresh.current] at hroot'
    exact {
      scopes := rfl
      decls := rfl
      names := rfl
      current := hF.linked.current
      here := by
        rw [hcurrent]
        rfl
      sees := by
        rw [hcurrent]
        refine ⟨.root, sc', rfl, hroot', ?_, ⟨?_, ?_⟩, hparent'.trans hparent⟩
        · rw [hparent', hparent]
          nofun
        · rw [hvalues', hvalues, append_nil]
          rfl
        · -- the built-in types were bound before all others
          have hbuiltin : (builtinTypes t.names).map (keyIn F.tree) =
              (builtinTypes t.names).map (keyIn t) := by
            rw [builtinTypes, map_map]
            rfl
          rw [htypes', htypes, ← hbuiltin, ← reverse_append, ← map_append]
          rfl
      completed := fun d => by
        rw [hF.completed]
        simp
      env_mem := fun f hf b hb => by
        rw [mem_singleton.1 hf] at hb
        exact (outline t).values_mem b hb
      done_mem := nofun
      injective := fun x hx y hy => inj_on_of_nodup_map hdistinct hx hy }
  · exact {
      opened := fun x hx => (hF.opened x hx).mono (Nat.zero_le _)
      sites := fun _ hx => hx
      regions := fun _ hr => hr
      uses := .refl _
      declared := hdecls
      places := h.places
      noted := by
        rw [hF.bare]
        exact noted_uses t }

/-- A scope of its own for each region of `t` that opens one, as the tree `u` numbers them: in
program order behind that of the unit. -/
structure Zoned (t u : Tree) (table : Scope.Table) : Prop where
  scopes : (outline t).scopes.map (fun x => scopeAt u x.2.region) =
    (List.range' 1 (outline t).scopes.length).map fun n => some (some ⟨n⟩)
  scopes_size : table.size = 1 + (outline t).scopes.length
  /-- The scope of a region is inside that of the region around it. -/
  nested : ∀ x ∈ (outline t).scopes, ∃ i p sc, scopeAt u x.2.region = some (some i) ∧
    scopeAt u (x.1.getD .root) = some (some p) ∧ table.get? i = some sc ∧ sc.parent = some p

/-- What both walks leave behind. -/
structure Outcome (t : Tree) (s : State) : Prop extends Zoned t s.tree s.table where
  numbered : (outline t).sites.map (declAt s.tree) =
    (List.range' (preludeNames.length + 1) (outline t).sites.length).map
      fun n => some ⟨n⟩
  tags : s.table.decls.tags =
    (internAll t.names preludeNames).map (fun i => (DeclKind.type, some i)) ++
      (outline t).sites.map fun x => (x.kind, none)
  names : ∀ {k : Nat} {a : String} {i : NameId}, preludeNames[k]? = some a →
    (internAll t.names preludeNames)[k]? = some i →
    s.table.names.lookup? i = some (Text.ofString a).composed
  bare : s.tree.bare = t.bare
  decl_eq : ∀ x ∉ (outline t).sites, declAt s.tree x = declAt t x
  note_eq : ∀ p ∉ (uses t).flatMap (fun u => u.mention.places), noteAt s.tree p = noteAt t p
  recorded : ∀ u ∈ uses t, u.Recorded t s.tree
  noted : ∀ u ∈ uses t, ∀ p ∈ u.mention.places, (noteAt s.tree p).isSome
  unfound : s.table.unfound =
    ((uses t).filter fun u => u.site?.isNone).map (Use.fault s.table.names)
  log : s.table.decls.log = ((items t).map (Item.declared s.tree .root)).reverse
  accounts : s.table.Accounts
  internal : ∀ f ∈ s.table.faults.toList, f.code ≠ .internalError
  misfits : s.table.faultsOf .invalidTypeKind =
    (outline t).impls.filterMap (misfit? s.tree s.table)
  impls : List.Forall₂ (Stores s.tree)
    ((outline t).impls.filter (implements s.tree s.table.decls)) s.impls.items

/-- Both walks, one after the other. -/
structure Passes (t : Tree) (table : Scope.Table) (F s : State) : Prop where
  collect : collectStmts 0 t.program ⟨t, table, .empty, []⟩ = .ok () F
  collects : Collects .root (outline t) ⟨t, table, .empty, []⟩ F
  echoes : Echoes (outline t) (collectStmts 0 t.program) ⟨t, table, .empty, []⟩ F
  walked : Walked F (extent t) (uses t) (outline t).impls (outline t).completed F s
  wrote : Wrote F (uses t) F.tree s.tree
  /-- On other trees that the first walk may leave, both walks do the same. -/
  same : ∀ t' w, collectStmts 0 t.program ⟨t', table, .empty, []⟩ = .ok () { F with tree := w } →
    Fits F (extent t) w →
      ∃ w', resolveProgram t.program ⟨t', table, .empty, []⟩ = .ok () { s with tree := w' }
  run : resolveProgram t.program ⟨t, table, .empty, []⟩ = .ok () s

theorem FreshTable.passes (hfresh : FreshTable t table) (h : WellFormed t) :
    ∃ F s, Passes t table F s := by
  obtain ⟨_, F, hcollect, hF, hechoes⟩ :=
    lays_collectStmts 0 .root t.program h.whole _ (hfresh.ready h)
  obtain ⟨hat, hlaid⟩ := hfresh.between hF h
  have hcurrent : F.table.current = .root := hF.current.trans hfresh.current
  have hrecorded : RecordedStmts F.tree.bare t.program := hF.bare ▸ recorded_bare t
  obtain ⟨s, hs, e⟩ := walks_bindStmts t.program h.whole hrecorded hlaid F hat
  have hroot : ScopeId.root.index < F.table.size := by
    rw [← hcurrent]
    exact hF.linked.current
  -- the links are as they should be
  have hlinked := hF.linked.congr hs.scopes hs.current
  have hrun {t' w w' : Tree}
      (hcollect : collectStmts 0 t.program ⟨t', table, .empty, []⟩ = .ok () { F with tree := w })
      (hbind : bindStmts t.program { F with tree := w } = .ok () { s with tree := w' }) :
      resolveProgram t.program ⟨t', table, .empty, []⟩ = .ok () { s with tree := w' } := by
    refine (Run.bind_eq hcollect).trans ((Run.bind_eq rfl).trans ?_)
    rw [if_neg (by simpa using hcurrent)]
    -- going to the root, where the walk already is
    have hgo := onTable_eq (s := { F with tree := w }) (goTo_eq hroot)
    rw [← hcurrent] at hgo
    have hdiscard : discard (onTable (goTo .root)) { F with tree := w } =
        .ok () { F with tree := w } := by
      show EStateM.map .. = _
      rw [EStateM.map, ← hcurrent, hgo]
    have hvalid := ask_eq (s := { s with tree := w' }) hlinked.validate_eq
    exact (Run.bind_eq hdiscard).trans ((Run.bind_eq hbind).trans (Run.bind_eq hvalid))
  obtain ⟨w, hbind, hw⟩ := e F.tree .refl
  exact ⟨F, { s with tree := w }, hcollect, hF, hechoes, { hs with }, hw,
    fun t' w' hcollect' hfits => have ⟨w'', hbind', _⟩ := e w' hfits
    ⟨w'', hrun hcollect' hbind'⟩, hrun hcollect hbind⟩

theorem Passes.outcome {s : State} (hfresh : FreshTable t table) (h : Passes t table F s) :
    Outcome t s := by
  have hF := h.collects
  have hs := h.walked
  have hw := h.wrote
  have hnone : ∀ c ≠ .scopeOverride, F.table.faultsOf c = [] := fun c hc => by
    rw [hF.faultsOf c hc, faultsOf, hfresh.faults]
    rfl
  exact {
    numbered := by
      rw [funext hw.decl_eq, hF.numbered]
      rw [hfresh.decls]
    tags := by
      rw [hs.decls, hF.tags]
      exact congrArg (· ++ _) hfresh.tags
    names := by
      rw [hs.names, hF.names]
      exact hfresh.names
    bare := hw.bare.trans hF.bare
    decl_eq := fun x hx => (hw.decl_eq x).trans (hF.decl_eq x hx)
    note_eq := fun p hp => (hw.note_eq p hp).trans (hF.note_eq p)
    recorded := fun u hu => by
      have hrec := hw.written u hu
      have hdecls : declAt s.tree = declAt F.tree := funext hw.decl_eq
      exact ⟨by rw [hrec.decl, hdecls, hF.note_eq], by rw [hdecls]; exact hrec.candidates⟩
    noted := fun u hu p hp => by
      rw [← isSome_noteAt_bare, hw.bare, hF.bare]
      exact (noted_uses t u hu p hp).1
    unfound := by
      rw [hs.unfound, hs.names]
      exact congrArg (· ++ _) (hnone .notFoundInScope (by decide))
    log := by
      have hsame : Item.declared s.tree .root = Item.declared F.tree .root :=
        funext fun x => Item.declared_congr (hw.decl_eq _) (hw.scope_eq _)
      rw [hs.decls, hF.log, hsame, items, map_append, map_map, reverse_append]
      exact congrArg (_ ++ ·) hfresh.log
    scopes := by
      simp only [hw.scope_eq]
      exact hF.scopes.trans (by rw [hfresh.size])
    scopes_size := by
      rw [size, hs.scopes]
      exact hF.size.trans (by rw [hfresh.size])
    nested := fun x hx => by
      obtain ⟨i, p, sc, hi, -, hget, hp, hparent, -⟩ := hF.opened x hx
      exact ⟨i, p, sc, (hw.scope_eq _).trans hi, (hw.scope_eq _).trans hp,
        by rw [get?, hs.scopes]; exact hget, hparent⟩
    accounts := (hF.accounts hfresh.accounts).congr (by rw [hs.decls]) hs.scopes
      (hs.quiet .scopeOverride (by decide) (by decide))
    internal := fun f hf hcode => by
      have hquiet := (hs.quiet .internalError (by decide) (by decide)).trans (hnone _ (by decide))
      simpa [hcode] using filter_eq_nil_iff.1 hquiet f hf
    misfits := by
      have hsame : misfit? s.tree s.table = misfit? s.tree F.table := by
        funext r
        rw [misfit?, misfit?, hs.decls, hs.names]
      rw [hs.misfits s.tree hw, hnone _ (by decide), hsame]
      rfl
    impls := by
      obtain ⟨items, hitems, hstores⟩ := hs.impls s.tree hw
      rw [hF.impls] at hitems
      rw [hitems, hs.decls]
      exact hstores }

theorem FreshTable.gives_resolveProgram (hfresh : FreshTable t table) (h : WellFormed t) :
    Gives (resolveProgram t.program) ⟨t, table, .empty, []⟩ fun _ s => Outcome t s := by
  obtain ⟨F, s, hpasses⟩ := hfresh.passes h
  exact ⟨(), s, hpasses.run, hpasses.outcome hfresh⟩

end UnitCheck.Resolution
