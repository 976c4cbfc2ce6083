import UnitCheck.Proofs.Resolution.Known
import UnitCheck.Syntax.Build

/-!
# What old annotations do to name resolution

A tree that was resolved before carries annotations. Resolving it again builds the same scopes and
declarations as without them and records the same at every name that is found. A name that is not
found is left as it was, with what it carried before. This is seen in one place more: an
implementation reads the declarations of its trait and its target from the tree, found or not.
-/

namespace UnitCheck.Resolution

open Syntax

theorem WellFormed.congr {t t' : Tree} (h : WellFormed t) (hprogram : t'.program = t.program)
    (huses : uses t' = uses t) : WellFormed t' where
  whole := by rw [hprogram]; exact h.whole
  sites := by rw [outline, hprogram]; exact h.sites
  regions := by rw [outline, hprogram]; exact h.regions
  places := by rw [huses]; exact h.places

theorem IsHead.of_bare {t : Tree} {rs : List Region} {i : TypeExprId} (h : IsHead t.bare rs i) :
    IsHead t rs i := by
  obtain ⟨r, x, hr, hx, hi⟩ := h
  obtain ⟨y, hy, rfl⟩ := Option.map_eq_some_iff.1 ((Arena.get?_map ..).symm.trans hx)
  exact ⟨r, y, hr, hy, hi⟩

/-- **Name resolution on trees that differ in annotations only.** For a well-formed tree it gives a
result on both, in which

* scopes, declarations and names are the same, and so are the declarations of all sites and the
  scopes of all regions;
* every use that is found has the same declaration recorded, and every call of a name the same
  candidates;
* a use that is not found is left as it was before, and so is everything that no use is written
  into, such as the candidates of a call whose callee is no name;
* the same names are reported as not found;
* the whole tables, implementations and faults are the same, if before the two trees have the same
  declarations at all traits and targets of implementations but names that are found. -/
theorem resolve_annotated (t t' : Tree) (h : WellFormed t) (hbare : t'.bare = t.bare)
    (hnames : t'.names = t.names) :
    ∃ r r', resolve t = .ok r ∧ resolve t' = .ok r' ∧
      (r'.table.scopes = r.table.scopes ∧ r'.table.decls = r.table.decls ∧
        r'.table.names = r.table.names ∧ r'.table.current = r.table.current) ∧
      r'.tree.bare = r.tree.bare ∧
      (∀ x ∈ (outline t).sites, declAt r'.tree x = declAt r.tree x) ∧
      (∀ x ∈ (outline t).regions, scopeAt r'.tree x = scopeAt r.tree x) ∧
      (∀ u ∈ uses t, u.site?.isSome →
        noteAt r'.tree u.mention.place = noteAt r.tree u.mention.place) ∧
      (∀ u ∈ uses t, ∀ call n, u.mention = .callee call n →
        noteAt r'.tree (.call call) = noteAt r.tree (.call call)) ∧
      (∀ u ∈ uses t, u.site? = none →
        noteAt r.tree u.mention.place = noteAt t u.mention.place ∧
          noteAt r'.tree u.mention.place = noteAt t' u.mention.place) ∧
      (∀ p ∉ (uses t).flatMap (fun u => u.mention.places),
        noteAt r.tree p = noteAt t p ∧ noteAt r'.tree p = noteAt t' p) ∧
      (r'.faults.filter fun f => f.code == .notFoundInScope) =
        (r.faults.filter fun f => f.code == .notFoundInScope) ∧
      ((∀ i, IsHead t (outline t).regions i →
          (∀ u ∈ uses t, u.site?.isSome → u.mention.place ≠ .type i) →
          noteAt t' (.type i) = noteAt t (.type i)) →
        r'.table = r.table ∧ r'.impls = r.impls ∧ r'.faults = r.faults) := by
  have hprogram : t'.program = t.program := by rw [← t'.program_bare, hbare, t.program_bare]
  have huses : uses t' = uses t := by
    rw [uses, uses, rootFrame, rootFrame, outline, outline, hprogram, hnames]
  have hfresh := freshTable_initial t
  have hfresh' := freshTable_initial t'
  rw [hnames] at hfresh'
  obtain ⟨table, htable⟩ : ∃ x, x = Scope.Table.initial t.names := ⟨_, rfl⟩
  rw [← htable] at hfresh hfresh'
  obtain ⟨F, s, p⟩ := hfresh.passes h
  obtain ⟨F', s', p'⟩ := hfresh'.passes (h.congr hprogram huses)
  have hout := p.outcome hfresh
  have hout' := p'.outcome hfresh'
  -- the first walk is the same but for the tree
  obtain ⟨w, hcollect, ho⟩ := p.echoes t' fun r hr =>
    (traced_program t').marked r (by rwa [outline, hprogram])
  obtain rfl : F' = { F with tree := w } := by
    have hcollect' := p'.collect
    rw [hprogram, hcollect] at hcollect'
    cases hcollect'
    rfl
  have hsites : ∀ x ∈ (outline t).sites, declAt s'.tree x = declAt s.tree x := by
    have hnumbered := hout'.numbered
    rw [outline, hprogram] at hnumbered
    exact List.map_inj_left.1 (hnumbered.trans hout.numbered.symm)
  have hscopes : ∀ r ∈ (outline t).regions, scopeAt w r = scopeAt F.tree r := ho.inside
  have hunfound := hout'.unfound
  rw [huses, p'.walked.names, ← p.walked.names, ← hout.unfound] at hunfound
  let result (s : State) : Resolved :=
    ⟨{ s.tree with names := s.table.names }, s.table, s.impls, s.table.faults.toList⟩
  have hdecl (s : State) (x : Site) : declAt (result s).tree x = declAt s.tree x := declAt_names ..
  have hscope (s : State) (r : Region) : scopeAt (result s).tree r = scopeAt s.tree r :=
    scopeAt_names ..
  have hnote (s : State) (p : Place) : noteAt (result s).tree p = noteAt s.tree p := noteAt_names ..
  refine ⟨result s, result s', by rw [resolve, ← htable, p.run],
    by rw [resolve, hnames, ← htable, p'.run], ⟨?_, ?_, ?_, ?_⟩, ?_, fun x hx => ?_, fun r hr => ?_,
    fun u hu hsome => ?_, fun u hu call n hcall => ?_, fun u hu hnone => ?_,
      fun p hp => ?_, hunfound,
    fun hheads => ?_⟩
  · exact p'.walked.scopes.trans p.walked.scopes.symm
  · exact p'.walked.decls.trans p.walked.decls.symm
  · exact p'.walked.names.trans p.walked.names.symm
  · exact p'.walked.current.trans p.walked.current.symm
  · exact (hout'.bare.trans hbare).trans hout.bare.symm
  · rw [hdecl, hdecl, hsites x hx]
  · rw [hscope, hscope, p'.wrote.scope_eq, p.wrote.scope_eq, hscopes r hr]
  · obtain ⟨x, hx⟩ := Option.isSome_iff_exists.1 hsome
    have hsame : declAt s'.tree x = declAt s.tree x := by
      obtain hx | ⟨-, k, -, rfl⟩ := (site_of_use hu hx).1
      · exact hsites x hx
      · rfl
    rw [hnote, hnote, (hout.recorded u hu).decl, (hout'.recorded u (huses ▸ hu)).decl, hx]
    simp only [hsame]
  · have hfunctions : u.functions.filterMap (declAt s'.tree) =
      u.functions.filterMap (declAt s.tree) :=
      List.filterMap_congr fun x hx => hsites x (site_of_functions hu hx)
    rw [hnote, hnote, (hout.recorded u hu).candidates call n hcall,
      (hout'.recorded u (huses ▸ hu)).candidates call n hcall, hfunctions]
  · rw [hnote, hnote, (hout.recorded u hu).decl, (hout'.recorded u (huses ▸ hu)).decl, hnone]
    exact ⟨rfl, rfl⟩
  · rw [hnote, hnote]
    exact ⟨hout.note_eq p hp, hout'.note_eq p (huses ▸ hp)⟩
  · -- the second walk can go on like on the other tree
    have hfits : Fits F (extent t) w := by
      refine ⟨p'.collects.bare.trans (hbare.trans p.collects.bare.symm), fun x hx => ?_, hscopes,
        fun i hhead hi => ?_⟩
      · rw [← p'.wrote.decl_eq, hsites x hx, p.wrote.decl_eq]
      · refine (p'.collects.note_eq _).trans ((hheads i ?_ fun u hu hsome hplace => ?_).trans
          (p.collects.note_eq _).symm)
        · exact (p.collects.bare ▸ hhead : IsHead t.bare _ i).of_bare
        · exact hi ⟨u, hu, hsome, hplace⟩
    obtain ⟨w', hrun⟩ := p.same t' w hcollect hfits
    have hrun' := p'.run
    rw [hprogram, hrun] at hrun'
    cases hrun'
    exact ⟨rfl, rfl, rfl⟩

/-- A trait and an implementation of the trait `name` for a built-in type. -/
def implementing (name : NameId) : Tree :=
  let build : Build Unit := do
    Build.pushRoot (← Build.typeDecl .zero .zero .trait_ 100 [] [] [])
    let trait ← Build.typeName .zero name .default
    Build.pushRoot (← Build.impl .zero trait (← Build.typeName .zero 1 .default) [])
  (build .empty).2

/-- The same with declarations that were recorded before. -/
def implementingAgain (name : NameId) : Tree :=
  let t := implementing name
  { t with types := t.types.map ({ · with decl := 9 }) }

theorem bare_implementingAgain (name : NameId) :
    (implementingAgain name).bare = (implementing name).bare := by
  simp only [implementingAgain, Tree.bare, Arena.map, Option.map_map, Function.comp_def,
    Array.map_map]
  rfl

/-- Both names are found, so what was recorded before does not matter. -/
theorem resolve_annotated_implementing :
    noteAt (implementingAgain 100) (.type 1) ≠ noteAt (implementing 100) (.type 1) ∧
      ∃ r r', resolve (implementing 100) = .ok r ∧ resolve (implementingAgain 100) = .ok r' ∧
        r'.table = r.table ∧ r'.impls = r.impls ∧ r'.faults = r.faults ∧
        noteAt r'.tree (.type 1) = noteAt r.tree (.type 1) := by
  obtain ⟨r, r', hr, hr', -, -, -, -, hfound, -, -, -, -, hall⟩ :=
    resolve_annotated (implementing 100) (implementingAgain 100) (by decide +kernel)
      (bare_implementingAgain _) rfl
  have huse : ∀ i ∈ [(1 : TypeExprId), 2],
      ∃ u ∈ uses (implementing 100), u.site?.isSome ∧ u.mention.place = .type i := by
    decide +kernel
  have hregions : (outline (implementing 100)).regions = [.type 1, .impl 1] := rfl
  refine ⟨by decide +kernel, r, r', hr, hr', ?_⟩
  obtain ⟨htable, himpls, hfaults⟩ := hall fun i ⟨p, x, hp, hx, hi⟩ hno => by
    rw [hregions] at hp
    obtain rfl : p = 1 := by simpa using hp
    cases hx
    replace hi : i = 1 ∨ i = 2 := hi
    obtain ⟨u, hu, hsome, hplace⟩ := huse i (by simpa using hi)
    exact absurd hplace (hno u hu hsome)
  refine ⟨htable, himpls, hfaults, ?_⟩
  obtain ⟨u, hu, hsome, hplace⟩ := huse 1 List.mem_cons_self
  rw [← hplace]
  exact hfound u hu hsome

/-- A trait that is not found keeps the declaration that it had, and is then reported once more for
what that declaration is. -/
theorem stale_trait_is_reported :
    WellFormed (implementing 200) ∧ (implementingAgain 200).bare = (implementing 200).bare ∧
      (implementingAgain 200).names = (implementing 200).names ∧
      (resolve (implementing 200)).toOption.map
        (fun r => (r.faults.map Fault.code, noteAt r.tree (.type 1))) =
          some ([.notFoundInScope], some [0]) ∧
      (resolve (implementingAgain 200)).toOption.map
        (fun r => (r.faults.map Fault.code, noteAt r.tree (.type 1))) =
          some ([.notFoundInScope, .invalidTypeKind], some [9]) :=
  ⟨by decide +kernel, bare_implementingAgain _, rfl, by decide +kernel, by decide +kernel⟩

end UnitCheck.Resolution
