import UnitCheck.Proofs.Typing.Unify

/-!
# Environments that inference can reach

Inference starts with a table of types and no variables. It makes types, hands out variables,
unifies types and finally settles literals. `Env.Step` is one of these operations, `Env.Reachable`
says that an environment is the result of some of them. Each step leaves an environment that is good
and extends the one before (`Env.Step.good`, `Env.Step.ext`), and so does every sequence of steps.
-/

namespace UnitCheck

open List

/-! ## Tables -/

/-- A type is made of types that are in the table. -/
inductive TypeTable.Step (t : TypeTable) : TypeTable → Prop
  | intern (s : Shape) (m : Modifier) : s.Proper → (∀ p ∈ s.parts, p.index < t.size) →
      s.kind ≠ .fn → Step t (t.intern ⟨s, m⟩).1
  | withModifier (i : TypeId) (m : Modifier) : Step t (t.withModifier i m).1
  | fn (params : List TypeId) (result : TypeId) : (∀ p ∈ result :: params, p.index < t.size) →
      Step t (t.fn params result).1
  | named (d : DeclId) (name : Text) : Step t (t.named d name).1

/-- A table that starts with the built-in types and grows step by step. -/
inductive TypeTable.Reachable : TypeTable → Prop
  | initial : Reachable TypeTable.initial
  | step {t t' : TypeTable} : Reachable t → t.Step t' → Reachable t'

/-- Every way to make a type keeps the table well-formed. -/
theorem TypeTable.Step.made {t t' : TypeTable} (h : t.Step t') (wf : t.WellFormed) :
    t'.WellFormed ∧ t.Extends t' := by
  cases h with
  | intern s m hproper hparts hfn =>
    have hadmits : t.Admits t.size s := by
      refine ⟨hproper, hparts, fun slot hs => ?_⟩
      rw [hs] at hfn
      exact absurd rfl hfn
    have made : t.Made (t.intern ⟨s, m⟩).1 (t.intern ⟨s, m⟩).2 ⟨s, m⟩ := wf.intern hadmits
    exact ⟨made.wellFormed, made.grows⟩
  | withModifier i m =>
    cases hlook : t.lookup? i with
    | none =>
      rw [TypeTable.withModifier_of_lookup?_none hlook]
      exact ⟨wf, .refl t⟩
    | some ty =>
      have made := wf.withModifier hlook m
      exact ⟨made.wellFormed, made.grows⟩
  | fn params result h =>
    obtain ⟨slot, made, -⟩ := wf.fn h
    exact ⟨made.wellFormed, made.grows⟩
  | named d name =>
    obtain ⟨slot, made⟩ := wf.named d name
    exact ⟨made.wellFormed, made.grows⟩

theorem TypeTable.Reachable.wellFormed {t : TypeTable} (h : t.Reachable) : t.WellFormed := by
  induction h with
  | initial => exact TypeTable.initial_wellFormed
  | step _ hstep ih => exact (hstep.made ih).1

namespace Typing

variable {e e' e'' : Env}

/-! ## New variables -/

/-- One more variable has been handed out, for a place in the source. -/
def Env.counted (e : Env) (span : Span) : Env :=
  { e with count := e.count + 1, origins := (⟨e.count + 1⟩, span) :: e.origins }

theorem Env.Good.counted (good : e.Good) (span : Span) : (e.counted span).Good :=
  good.congr rfl (Nat.le_succ _) rfl rfl good.faults

theorem Env.Once.counted (h : e.Once) (span : Span) : (e.counted span).Once where
  nodup := h.nodup
  le_count v hv := Nat.le_succ_of_le (h.le_count v hv)
  reports := by
    refine h.reports.trans (map_congr_left fun v hv => ?_)
    -- the new variable has a number of its own, so the others come from where they came from
    have hle := h.le_count v (mem_reverse.1 hv)
    have hne : v ≠ ⟨e.count + 1⟩ := by
      rintro rfl
      exact Nat.not_succ_le_self _ hle
    have horigin : (e.counted span).origin v = e.origin v := by
      simp only [origin, Env.counted, lookup_cons, beq_eq_false_iff_ne.2 hne]
    rw [unresolved, unresolved, horigin]

theorem Env.extends_counted (span : Span) : e.Extends (e.counted span) :=
  ⟨.refl _, Nat.le_succ _, id, fun hv => ⟨_, hv, .refl⟩, prefix_rfl,
    fun h => h.counted span⟩

/-- What handing out a variable does: the new type is a variable that stands for nothing. -/
structure Env.Fresh (e : Env) (i : TypeId) (e' : Env) : Prop where
  good : e'.Good
  ext : e.Extends e'
  isOver : e'.Over i
  view : e'.types.view i = .var ⟨e.count + 1⟩
  binding? : e'.binding? ⟨e.count + 1⟩ = none

/-- The number of the variable is new, so no binding knows it. -/
theorem yields_freshType (good : e.Good) (span : Span) :
    Yields (varType ⟨e.count + 1⟩) (e.counted span) fun i e' =>
      e.Fresh i e' ∧ e'.literals = e.literals := by
  refine (yields_varType (good.counted span) _).mono fun i e' hmade => ?_
  have hview := TypeTable.view_of_var hmade.lookup?
  refine ⟨⟨hmade.good, (Env.extends_counted span).trans hmade.grows.toExtends, ?_, hview, ?_⟩,
    hmade.grows.literals⟩
  · refine .var hview rfl ?_
    rw [hmade.grows.count]
    exact .refl
  · rw [hmade.grows.binding?_eq]
    cases hv : (e.counted span).binding? ⟨e.count + 1⟩ with
    | none => rfl
    | some j => exact absurd (good.bound hv).le_count (Nat.not_succ_le_self _)

theorem yields_freshVar (span : Span) :
    Yields (freshVar span) e fun v e' => v = ⟨e.count + 1⟩ ∧ e' = e.counted span := ⟨rfl, rfl⟩

theorem yields_fresh (good : e.Good) (span : Span) :
    Yields (fresh span) e fun i e' => e.Fresh i e' ∧ e'.literals = e.literals := by
  refine (yields_freshVar span).bind ?_
  rintro v e1 ⟨rfl, rfl⟩
  exact yields_freshType good span

variable {k : Kind} {v : VarId}

theorem yields_freshLiteral (good : e.Good) (hk : k.isUntyped) (span : Span) :
    Yields (freshLiteral k span) e fun i e' =>
      e.Fresh i e' ∧ e'.literal? ⟨e.count + 1⟩ = some k := by
  refine (yields_freshVar span).bind ?_
  rintro v e1 ⟨rfl, rfl⟩
  refine (yields_freshType good span).bind fun i e1 ⟨hfresh, hliterals⟩ => ?_
  obtain ⟨hvalid, hle⟩ := hfresh.isOver.var_bound hfresh.view
  -- no earlier variable has this number, so it has no literal kind that could be wider
  refine (yields_setLiteral hfresh.good [] hvalid hle hfresh.binding? hk fun k' hk' => ?_).bind ?_
  · have hk' : e.literal? ⟨e.count + 1⟩ = some k' := by
      rw [← hk']
      unfold Env.literal?
      rw [hliterals]
    exact absurd (good.literal hk').le_count (Nat.not_succ_le_self _)
  · rintro _ e2 ⟨hbinds, htypes, hcount, hbindings, hlit, -⟩
    refine .pure ⟨⟨hbinds.good, hfresh.ext.trans hbinds.ext,
      hbinds.ext.isOver hfresh.good hfresh.isOver, by rw [htypes, hfresh.view], ?_⟩, hlit⟩
    unfold Env.binding?
    rw [hbindings]
    exact hfresh.binding?

/-! ## Defaults -/

/-- Every literal but a float may become an int. -/
theorem Kind.fits_int (h : k.isUntyped = true) (hne : k ≠ .untypedFloat) : k.fits .int = true := by
  unfold Kind.isUntyped at h
  split at h
  · rfl
  · rfl
  · exact absurd rfl hne
  · cases h

/-- What literals become if nothing else decides. -/
abbrev defaultTypes : List TypeId := [Builtin.int, Builtin.f32]

/-- The default types have no variables. -/
theorem Env.Good.over_default (good : e.Good) : ∀ i ∈ defaultTypes, e.Over i := by
  refine forall_mem_cons.2 ⟨?_, forall_mem_singleton.2 ?_⟩
  · exact .atom (good.types.view_builtin rfl rfl)
  · exact .atom (good.types.view_builtin rfl rfl)

/-- The literals `vs` stand for something now. Only default types were bound. -/
structure Env.Defaults (e : Env) (vs : List VarId) (e' : Env) : Prop extends
    e.Binds defaultTypes e' where
  literals : e'.literals = e.literals
  settled : ∀ v ∈ vs, (e'.binding? v).isSome = true

/-- An open literal gets the default type of its kind, one that stands for a type keeps it. -/
theorem yields_applyDefault (good : e.Good) (hv : e.literal? v = some k) :
    Yields (applyDefault v) e fun _ e' => e.Defaults [v] e' := by
  refine .get_bind ?_
  split
  next hnone =>
    have hfree : e.binding? v = none := Option.isNone_iff_eq_none.1 hnone
    obtain ⟨hvalid, hle, huntyped, -⟩ := good.literal hv
    -- both default types are numbers that the literal fits
    have hassign {n : Nat} {s : Shape} {x : Atom} (hn : TypeTable.builtinShapes[n]? = some s)
        (hx : s.atom? = some x) (hfits : k.fits x.kind) (hmem : ⟨n + 1⟩ ∈ defaultTypes) :
        Yields (assign v ⟨n + 1⟩) e fun _ e' => e.Defaults [v] e' := by
      have hatom := good.types.view_builtin hn hx
      have havoid : e.Avoids v ⟨n + 1⟩ := fun u hu => by
        rw [hu.functional (.atom hatom)]
        exact .atom nofun
      refine ⟨⟨good.assign hvalid hle hfree (good.types.lookup?_builtin hn) (.atom hatom) havoid
        fun k' hk' => ?_, Env.extends_assigned hfree, fun hall i hover hi => ?_⟩, rfl,
        forall_mem_singleton.2 (Option.isSome_of_eq_some Env.binding?_assigned_self)⟩
      · cases hv.symm.trans hk'
        exact .number hatom hfits
      · exact Env.all_assigned good hfree (.atom hatom) havoid (hall _ hmem) hover hi
    split
    next hfloat =>
      cases hv.symm.trans hfloat
      exact hassign rfl rfl (by decide) (by decide)
    next hnot =>
      refine hassign rfl rfl (Kind.fits_int huntyped fun hk => ?_) (by decide)
      exact hnot (hk ▸ hv)
  next hsome =>
    refine .pure ⟨.of_keeps good (.refl good), rfl, forall_mem_singleton.2 ?_⟩
    simpa [Option.isSome_iff_ne_none] using hsome

/-- Each variable that is settled in the end is that of a literal. -/
theorem exists_literal_of_mem (h : v ∈ e.literalVars) : ∃ k, e.literal? v = some k := by
  unfold Env.literalVars at h
  rw [mem_mergeSort, mem_eraseDups] at h
  unfold Env.literal?
  cases hv : e.literals.lookup v with
  | some k => exact ⟨k, rfl⟩
  | none =>
    obtain ⟨⟨w, k⟩, hmem, rfl⟩ := mem_map.1 h
    have hne := lookup_eq_none_iff.1 hv (w, k) hmem
    simp at hne

theorem mem_literalVars (h : e.literal? v = some k) : v ∈ e.literalVars := by
  obtain ⟨before, behind, heq, -⟩ := lookup_eq_some_iff.1 h
  rw [Env.literalVars, heq]
  simp

/-- Literals that are settled stay so while the rest is. -/
theorem yields_applyDefaults_loop (vs : List VarId) (good : e.Good)
    (hvs : ∀ v ∈ vs, ∃ k, e.literal? v = some k) :
    Yields (forIn vs PUnit.unit fun v _ => do applyDefault v; return .yield .unit) e
      fun _ e' => e.Defaults vs e' := by
  induction vs generalizing e with
  | nil => exact ⟨.of_keeps good (.refl good), rfl, nofun⟩
  | cons v vs ih =>
    obtain ⟨k, hk⟩ := hvs v mem_cons_self
    simp only [forIn_cons, bind_assoc]
    refine (yields_applyDefault good hk).bind fun _ e1 h => ?_
    refine (ih h.good fun w hw => ?_).mono fun _ e2 h' =>
      ⟨h.toBinds.trans h'.toBinds good good.over_default, h'.literals.trans h.literals,
        forall_mem_cons.2 ⟨?_, h'.settled⟩⟩
    · obtain ⟨k', hk'⟩ := hvs w (mem_cons_of_mem v hw)
      obtain ⟨k'', hk'', -⟩ := h.ext.literal? hk'
      exact ⟨k'', hk''⟩
    · obtain ⟨j, hj⟩ := Option.isSome_iff_exists.1 (h.settled v mem_cons_self)
      exact Option.isSome_of_eq_some (h'.ext.binding? hj)

theorem yields_applyDefaults (good : e.Good) :
    Yields applyDefaults e fun _ e' => e.Defaults e.literalVars e' :=
  yields_applyDefaults_loop e.literalVars good fun _ hv => exists_literal_of_mem hv

/-! ## Reachable environments -/

namespace Env

/-- One operation of inference: new types, a new variable, unification of two types of the
environment, or settling literals. -/
inductive Step (e : Env) : Env → Prop
  | types {t : TypeTable} : e.types.Step t → Step e { e with types := t }
  | fresh (span : Span) : Step e (fresh span e).2
  | freshLiteral (k : Kind) (span : Span) : k.isUntyped → Step e (freshLiteral k span e).2
  | unify (expect got : TypeId) (span : Span) : e.Over expect → e.Over got →
      Step e (unify expect got span e).2
  | applyDefaults : Step e (applyDefaults e).2

/-- A run of inference. -/
inductive Steps (e : Env) : Env → Prop
  | refl : Steps e e
  | step {e' e'' : Env} : Steps e e' → e'.Step e'' → Steps e e''

/-- An environment that some run leads to, from a table that can be reached. -/
def Reachable (e : Env) : Prop := ∃ t : TypeTable, t.Reachable ∧ (Env.initial t).Steps e

theorem good_initial {t : TypeTable} (wf : t.WellFormed) : (Env.initial t).Good :=
  ⟨wf, fun h => (nomatch h), fun h => (nomatch h), nodup_nil, nofun⟩

/-- An operation keeps an environment good and takes nothing back. -/
theorem Step.good_ext (h : e.Step e') (good : e.Good) : e'.Good ∧ e.Extends e' := by
  cases h with
  | types h =>
    obtain ⟨wf, hext⟩ := h.made good.types
    exact ⟨good.withTypes wf hext, (grows_withTypes hext).toExtends⟩
  | fresh span =>
    obtain ⟨hfresh, -⟩ := yields_fresh good span
    exact ⟨hfresh.good, hfresh.ext⟩
  | freshLiteral k span hk =>
    obtain ⟨hfresh, -⟩ := yields_freshLiteral good hk span
    exact ⟨hfresh.good, hfresh.ext⟩
  | unify expect got span he hg =>
    have h := yields_unify good he hg span
    exact ⟨h.good, h.ext⟩
  | applyDefaults =>
    have h := yields_applyDefaults good
    exact ⟨h.good, h.ext⟩

/-- What one operation keeps, a run keeps: by induction on the run. -/
theorem Steps.good_ext (h : e.Steps e') (good : e.Good) : e'.Good ∧ e.Extends e' := by
  induction h with
  | refl => exact ⟨good, .refl e⟩
  | step _ hstep ih =>
    obtain ⟨hgood, hext⟩ := ih
    obtain ⟨hgood', hext'⟩ := hstep.good_ext hgood
    exact ⟨hgood', hext.trans hext'⟩

theorem Reachable.good (h : e.Reachable) : e.Good := by
  obtain ⟨t, ht, hsteps⟩ := h
  exact (hsteps.good_ext (good_initial ht.wellFormed)).1

end Env

end Typing

end UnitCheck
