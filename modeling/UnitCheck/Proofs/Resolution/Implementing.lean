import UnitCheck.Proofs.Resolution.Stale

/-!
# Which implementations are stored

An implementation is stored if what it implements is a trait, and a fault if it is something else.
Both are read off the declaration that is recorded at the type which stands for the trait. If this
type is a name, it was looked up, so that a name without a declaration has been reported. Any other
type has no declaration of its own: an implementation of `&Show` is neither stored nor a fault.
-/

namespace UnitCheck.Resolution

open Syntax

/-- What becomes of an implementation of `x`. If `x` is a name, it is stored or a fault at the name,
as the name means a trait or something else; or the name means nothing, which is a fault. If `x` is
no name, it is neither stored nor a fault. -/
def Settles (t : Tree) (table : Scope.Table) (us : List Use) (r : PayloadId) (x : TypeRecord) :
    Prop :=
  let stored := implements t table.decls r
  if x.kind = .name then ∃ u ∈ us, u.mention.span = x.span ∧
    (u.site?.isSome ∧ (stored = true ∧ misfit? t table r = none ∨
        stored = false ∧ ∃ f, misfit? t table r = some f ∧ f.span = x.span) ∨
      u.fault table.names ∈ table.faults.toList ∧ misfit? t table r = none ∧ stored = false)
  else misfit? t table r = none ∧ stored = false

theorem Outcome.settles {t : Tree} {s : State} (h : Outcome t s) (hbare : t.IsBare) {r : PayloadId}
    (hr : r ∈ (outline t).impls) {x : TypeRecord} (hx : traitOf? s.tree r = some x) :
    Settles s.tree s.table (uses t) r x := by
  obtain ⟨z, hz, htype⟩ := Option.bind_eq_some_iff.1 hx
  have hnote : noteAt s.tree (.type z.trait) = some [x.decl] := by simp [noteAt, htype]
  have htraced : Traced s.tree [rootFrame t] (outline t) (uses t) := by
    refine traced_stmts _ ?_
    rw [← t.program_bare, ← h.bare, s.tree.program_bare]
    exact recorded_program s.tree
  -- without a declaration from before, a type that is left as it was has none
  have hidle (hleft : noteAt s.tree (.type z.trait) = noteAt t (.type z.trait)) :=
    idle_of_decl hx (by rw [eq_zero_of_noteAt hbare (hleft ▸ hnote) x.decl List.mem_cons_self]; rfl)
      s.table
  unfold Settles
  split
  next hname =>
    obtain ⟨z', env, done, hz', hsub⟩ := htraced.heads r hr
    cases hz.symm.trans hz'
    obtain ⟨hnone, -⟩ | ⟨x', hx', -, -, hform⟩ := typeExpr_cases s.tree z.trait
    · cases hnone.symm.trans htype
    cases htype.symm.trans hx'
    rw [hform hname] at hsub
    have hu := hsub List.mem_cons_self
    refine ⟨_, hu, rfl, ?_⟩
    cases hsite : (Use.mk ..).site? with
    | none =>
      have hrec := (h.recorded _ hu).decl
      rw [hsite] at hrec
      have hfault : _ ∈ s.table.unfound :=
        h.unfound ▸ List.mem_map_of_mem (List.mem_filter.2 ⟨hu, by rw [hsite]; rfl⟩)
      exact .inr ⟨(List.mem_filter.1 hfault).1, hidle hrec⟩
    | some site =>
      obtain ⟨d, -, hd, hsome⟩ := h.leads_of_site hu hsite
      obtain rfl : x.decl = d := by simpa using hnote.symm.trans hd
      have hvalid : x.decl.isValid = true := eq_true_of_ne_false fun hvalid => by
        rw [get?_of_isValid hvalid] at hsome
        cases hsome
      refine .inl ⟨rfl, ?_⟩
      cases htrait : (s.table.decls.get? x.decl).any Decl.isTrait with
      | true => exact .inl (by simp [implements, misfit?, hx, htrait])
      | false =>
        exact .inr ⟨by simp [implements, hx, htrait], _, by simp [misfit?, hx, hvalid, htrait]; rfl,
          (notATrait_eq ..).2⟩
  next hname =>
    refine hidle (h.note_eq _ fun hmem => hname ?_)
    obtain ⟨u, hu, hp⟩ := List.mem_flatMap.1 hmem
    have hkind := (htraced.noted u hu _ hp).2 _ rfl
    rw [htype] at hkind
    exact Option.some.inj hkind

/-- **Implementations of named traits are not dropped silently.** On a well-formed tree that nothing
was written into, name resolution gives a result in which

* the implementations of each trait are stored once, in program order, and no others;
* the faults about what is no trait are those of implementations of something else, in program
  order;
* an implementation whose trait is a name is stored or has a fault at the name; an implementation of
  any other type is neither stored nor a fault. -/
theorem resolve_implementations (t : Tree) (h : WellFormed t) (hbare : t.IsBare) :
    ∃ r, resolve t = .ok r ∧
      let rs := (outline t).impls
      let stored := rs.filter (implements r.tree r.table.decls)
      r.impls.size = stored.length ∧
      (∀ d, List.Forall₂ (Stores r.tree)
        (stored.filter fun p => (traitOf? r.tree p).map TypeRecord.decl == some d)
          (r.impls.ofTrait d)) ∧
      (r.faults.filter fun f => f.code == .invalidTypeKind) =
        rs.filterMap (misfit? r.tree r.table) ∧
      r.faults = r.table.faults.toList ∧
      ∀ p ∈ rs, ∀ x, traitOf? r.tree p = some x → Settles r.tree r.table (uses t) p x := by
  obtain ⟨_, s, hrun, hout⟩ := (freshTable_initial t).gives_resolveProgram h
  -- the names of the tree are not part of what is read
  have hstores := hout.impls.imp fun _ _ (hi : Stores s.tree _ _) =>
    (⟨hi.stmt, hi.trait, hi.target, hi.targetDecl⟩ :
      Stores { s.tree with names := s.table.names } _ _)
  refine ⟨⟨{ s.tree with names := s.table.names }, s.table, s.impls, s.table.faults.toList⟩,
    by rw [resolve, hrun], hstores.length_eq.symm,
      fun d => List.rel_filter (fun r i hi => ?_) hstores,
    hout.misfits, rfl, fun r hr x => hout.settles hbare hr⟩
  show ((traitOf? _ r).map TypeRecord.decl == some d) = true ↔ (i.trait == d) = true
  rw [hi.trait]
  simp

/-- The one implementation is stored, so what it implements is a trait. -/
theorem resolve_implementations_implementing : (outline (implementing 100)).impls = [1] ∧
    ∃ r, resolve (implementing 100) = .ok r ∧ r.impls.size = 1 ∧
      implements r.tree r.table.decls 1 = true := by
  have hlist : (outline (implementing 100)).impls = [1] := by decide +kernel
  have hone : (resolve (implementing 100)).toOption.map (·.impls.size) = some 1 := by decide +kernel
  obtain ⟨r, hr, hsize, -⟩ :=
    resolve_implementations (implementing 100) (by decide +kernel) (by constructor <;> decide)
  rw [hr] at hone
  replace hone : r.impls.size = 1 := Option.some.inj hone
  refine ⟨hlist, r, hr, hone, ?_⟩
  by_contra himplements
  rw [hone, hlist, List.filter_cons_of_neg himplements] at hsize
  cases hsize

/-- A trait and an implementation of a reference to it for a built-in type. -/
def implementingReference : Tree :=
  let build : Build Unit := do
    Build.pushRoot (← Build.typeDecl .zero .zero .trait_ 100 [] [] [])
    let trait ← Build.refType .zero (← Build.typeName .zero 100 .default) false .default
    Build.pushRoot (← Build.impl .zero trait (← Build.typeName .zero 1 .default) [])
  (build .empty).2

/-- An implementation of a reference to a trait is neither stored nor reported. -/
theorem reference_to_trait_is_dropped : WellFormed implementingReference ∧
    implementingReference.IsBare ∧ (outline implementingReference).impls = [1] ∧
    (resolve implementingReference).toOption.map (fun r => (r.impls.size, r.faults)) =
      some (0, []) :=
  ⟨by decide +kernel, by constructor <;> decide, by decide +kernel, by decide +kernel⟩

end UnitCheck.Resolution
