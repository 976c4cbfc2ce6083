import UnitCheck.Proofs.Typing.Acyclic

/-!
# Expanding is a closure

A type is expanded if no variable in it stands for anything (`Env.IsExpanded`). Expanding a type,
with variables that stand for nothing left as they are, gives an expanded type, and it gives an
expanded type itself again, so nothing is gained by expanding twice. If the type, written out, is
nested no deeper than the limit, nothing is reported.
-/

namespace UnitCheck.Typing

open TypeTable

variable {e e' : Env} {i j p : TypeId} {v : VarId} {n : Nat}

namespace Env

def isBound (e : Env) : Head → Bool
  | .var v => (e.binding? v).isSome
  | _ => false

/-- No variable in the type, at any depth, stands for anything. -/
def IsExpanded (e : Env) (i : TypeId) : Prop :=
  (e.types.formOf .var i).all (fun _ h => !e.isBound h) = true

theorem IsExpanded.free (h : e.IsExpanded i) (hview : e.types.view i = .var v) :
    e.binding? v = none := by
  obtain ⟨m, hlook⟩ := lookup?_of_view_var hview
  rw [IsExpanded, formOf_var hlook, Form.qualified, Form.all_node] at h
  simpa [isBound] using h.1

theorem IsExpanded.part (h : e.IsExpanded i) (good : e.Good) (hp : p ∈ (e.types.view i).parts) :
    e.IsExpanded p := by
  cases hlook : e.types.lookup? i with
  | none =>
    rw [TypeTable.view, hlook] at hp
    cases hp
  | some ty =>
    have hvar (v : VarId) : e.types.view i ≠ .var v := fun hv => by
      rw [hv] at hp
      cases hp
    rw [IsExpanded, good.types.formOf_of_parts hlook hvar rfl, Form.all_node] at h
    exact h.2 _ (List.mem_map_of_mem hp)

/-- What variables stand for nothing is met where ways end. -/
theorem Good.all_formAt (good : e.Good) (hi : e.Over i) :
    (e.formAt n i).all (fun _ h => !e.isBound h) = true := by
  induction n generalizing i with
  | zero => rfl
  | succ n ih =>
    by_cases h0 : i = 0
    · subst h0
      rfl
    obtain ⟨vs, k, hway⟩ := good.exists_way i
    obtain ⟨ty, hlook⟩ := hway.exists_lookup? good hi h0
    rw [hway.formAt_succ good hlook, Form.all_node]
    refine ⟨?_, fun F hF => ?_⟩
    · obtain ⟨s, m⟩ := ty
      cases s with
      | var v => simp [isBound, Shape.head, hway.stops (view_of_var hlook)]
      | plain | int | uint | float | array | reference | pointer | optional | named | fn => rfl
    · obtain ⟨p, hp, rfl⟩ := List.mem_map.1 hF
      exact ih ((hway.isOver good hi).part hp)

end Env

open Env

theorem withModifier_self {ty : Ty} (hlook : e.types.lookup? i = some ty) :
    withModifier i ty.modifier e = (i, e) := by
  simp [withModifier, onTypes, TypeTable.withModifier, hlook, modifyGet, MonadStateOf.modifyGet,
    StateT.modifyGet, pure]

theorem resolve_of_isExpanded (h : e.IsExpanded i) (good : e.Good) : resolve i e = (i, e) := by
  cases hlook : e.types.lookup? i with
  | none => exact resolve_eq_of_none hlook
  | some outer =>
    have hway : e.Way i [] i := .stop fun _ => h.free
    rw [hway.resolve_eq good hlook]
    split
    · rfl
    · exact withModifier_self hlook

/-! ## Depth -/

/-- However deep variables are replaced by what they stand for, the type has less than `n` levels of
constructors around others. -/
def Env.Nests (e : Env) (n : Nat) (i : TypeId) : Prop := e.Over i ∧ ∀ m, (e.formAt m i).height < n

theorem Env.Nests.keeps (h : e.Nests n i) (good : e.Good) (hkeeps : e.Keeps e') : e'.Nests n i :=
  ⟨hkeeps.grows.isOver good h.1, fun m => hkeeps.formAt_eq good h.1 m ▸ h.2 m⟩

theorem Env.Nests.resolve (h : e.Nests n i) (good : e.Good) :
    (resolve i e).2.Nests n (resolve i e).1 := by
  have hres : e.Resolves i _ _ := yields_resolve good h.1
  refine ⟨hres.isOver, fun m => ?_⟩
  cases m with
  | zero => exact h.2 0
  | succ m => exact formAt_resolve good h.1 ▸ h.2 (m + 1)

theorem Env.Nests.part (h : e.Nests (n + 1) i) (good : e.Good) (hp : p ∈ (e.types.view i).parts) :
    e.Nests n p := by
  have hstop : e.Way i [] i := .stop fun v hv => by
    rw [hv] at hp
    cases hp
  obtain rfl | ⟨ty, hlook⟩ := h.1.eq_zero_or_lookup?
  · cases hp
  refine ⟨h.1.part hp, fun m => Nat.lt_of_lt_of_le ?_ (Nat.le_of_lt_succ (h.2 (m + 1)))⟩
  rw [hstop.formAt_succ good hlook]
  exact Form.height_lt (List.mem_map_of_mem hp)

/-- An expanded type is as deep as it is in the table. -/
theorem Env.IsExpanded.height_formAt_le (h : e.IsExpanded i) (good : e.Good) (hi : e.Over i)
    (m : Nat) : (e.formAt m i).height ≤ (e.types.formOf .var i).height := by
  induction m generalizing i with
  | zero => exact Nat.zero_le _
  | succ m ih =>
    obtain rfl | ⟨ty, hlook⟩ := hi.eq_zero_or_lookup?
    · exact Nat.zero_le _
    have hstop : e.Way i [] i := .stop fun _ => h.free
    rw [hstop.formAt_succ good hlook]
    by_cases hvar : ∃ v, e.types.view i = .var v
    · obtain ⟨v, hv⟩ := hvar
      rw [hv]
      exact Nat.zero_le _
    · rw [good.types.formOf_of_parts hlook (fun v hv => hvar ⟨v, hv⟩) rfl]
      exact Form.heightOf_map_le fun p hp => ih (h.part good hp) (hi.part hp)

/-! ## Expanding -/

/-- What a step of expanding does that is not nested too deeply: it reports nothing, and does
nothing if there is nothing to be expanded. -/
structure Env.Closes {α : Type} (e : Env) (isExpanded : Prop) (before behind : α) (e' : Env) :
    Prop where
  faults : e'.faults = e.faults
  same : isExpanded → behind = before ∧ e' = e

theorem Env.Closes.refl {α : Type} {isExpanded : Prop} (x : α) : e.Closes isExpanded x x e :=
  ⟨rfl, fun _ => ⟨rfl, rfl⟩⟩

theorem yields_mapTypes_closes {is : List TypeId}
    (h : ∀ {e i}, e.Good → e.Nests n i → Yields (expandAt keep n i) e (e.Closes (e.IsExpanded i) i))
    (good : e.Good) (his : ∀ i ∈ is, e.Nests n i) :
    Yields (mapTypes (expandAt keep n) is) e (e.Closes (∀ i ∈ is, e.IsExpanded i) is) := by
  induction is generalizing e with
  | nil => exact .pure (.refl [])
  | cons i is ih =>
    obtain ⟨hi, his⟩ := List.forall_mem_cons.1 his
    have hrun : Yields (expandAt keep n i) e fun j e1 => e.Writes n i j e1 ∧
        e.Closes (e.IsExpanded i) i j e1 := ⟨expansion_keep.yields_expandAt good hi.1, h good hi⟩
    refine hrun.bind ?_
    rintro j e1 ⟨hwrites, hcloses⟩
    refine (ih hwrites.good fun p hp => (his p hp).keeps good hwrites.toKeeps).bind
      fun js e2 hrest => ?_
    refine .pure ⟨hrest.faults.trans hcloses.faults, fun hall => ?_⟩
    obtain ⟨hall, halls⟩ := List.forall_mem_cons.1 hall
    obtain ⟨rfl, rfl⟩ := hcloses.same hall
    obtain ⟨rfl, rfl⟩ := hrest.same halls
    exact ⟨rfl, rfl⟩

theorem yields_expandAt_closes (good : e.Good) (h : e.Nests n i) :
    Yields (expandAt keep n i) e (e.Closes (e.IsExpanded i) i) := by
  induction n generalizing e i with
  | zero => exact absurd (h.2 0) (Nat.not_lt_zero _)
  | succ n ih =>
    have hresolve : Yields (resolve i) e fun j e1 => e.Resolves i j e1 ∧ e1.Nests (n + 1) j ∧
        e.Closes (e.IsExpanded i) i j e1 := by
      refine ⟨yields_resolve good h.1, h.resolve good, faults_resolve good i, fun hexp => ?_⟩
      rw [resolve_of_isExpanded hexp good]
      exact ⟨rfl, rfl⟩
    rw [expandAt_succ]
    refine hresolve.bind ?_
    rintro j e1 ⟨hres, hnests, hcloses⟩
    refine .get_bind ?_
    -- it is enough to look at the type at the end of the way
    suffices hgoal : Yields _ e1 (e1.Closes (e1.IsExpanded j) j) from hgoal.mono fun k e2 hrest =>
      ⟨hrest.faults.trans hcloses.faults, fun hexp => by
        obtain ⟨rfl, rfl⟩ := hcloses.same hexp
        exact hrest.same hexp⟩
    have hpart {p : TypeId} (hp : p ∈ (e1.types.view j).parts) : e1.Nests n p :=
      hnests.part hres.good hp
    have hexpanded {p : TypeId} (hexp : e1.IsExpanded j) (hp : p ∈ (e1.types.view j).parts) :
        e1.IsExpanded p := hexp.part hres.good hp
    cases hview : e1.types.view j with
    | missing | atom => exact .pure (.refl j)
    | var v =>
      obtain ⟨m, hlook⟩ := lookup?_of_view_var hview
      rw [TypeTable.describe, hlook]
      refine (.pure ⟨rfl, rfl⟩ : Yields (keep v j) e1 fun k e2 => k = j ∧ e2 = e1).bind ?_
      rintro _ _ ⟨rfl, rfl⟩
      split
      · exact .pure (.refl _)
      · exact ⟨rfl, fun _ => Prod.mk.inj (withModifier_self hlook)⟩
    | wrap w elem =>
      have helem : elem ∈ (e1.types.view j).parts := by simp [hview, View.parts]
      refine (ih hres.good (hpart helem)).bind fun elem' e2 hrun => ?_
      have hsame (hexp : e1.IsExpanded j) := hrun.same (hexpanded hexp helem)
      split
      · exact .pure ⟨hrun.faults, fun hexp => ⟨rfl, (hsame hexp).2⟩⟩
      next hne => exact ⟨hrun.faults, fun hexp => absurd (hsame hexp).1 hne⟩
    | fn ps r =>
      have hr : r ∈ (e1.types.view j).parts := by simp [hview, View.parts]
      have hps (p : TypeId) (hp : p ∈ ps) : p ∈ (e1.types.view j).parts := by
        simp [hview, View.parts, hp]
      have hmap : Yields (mapTypes (expandAt keep n) ps) e1 fun ps' e2 => e1.Keeps e2 ∧
          e1.Closes (∀ p ∈ ps, e1.IsExpanded p) ps ps' e2 :=
        ⟨(expansion_keep.yields_mapTypes expansion_keep.yields_expandAt hres.good fun p hp =>
          (hpart (hps p hp)).1).1, yields_mapTypes_closes ih hres.good fun p hp => hpart (hps p hp)⟩
      refine hmap.bind ?_
      rintro ps' e2 ⟨hkeeps, hrun⟩
      refine (ih hkeeps.good ((hpart hr).keeps hres.good hkeeps)).bind fun r' e3 hrun' => ?_
      have hfaults := hrun'.faults.trans hrun.faults
      have hsame (hexp : e1.IsExpanded j) : (ps' = ps ∧ r' = r) ∧ e3 = e1 := by
        obtain ⟨rfl, rfl⟩ := hrun.same fun p hp => hexpanded hexp (hps p hp)
        obtain ⟨rfl, rfl⟩ := hrun'.same (hexpanded hexp hr)
        exact ⟨⟨rfl, rfl⟩, rfl⟩
      split
      · exact .pure ⟨hfaults, fun hexp => ⟨rfl, (hsame hexp).2⟩⟩
      next hne => exact ⟨hfaults, fun hexp => absurd (hsame hexp).1 hne⟩

/-- Expanding is a closure. In every environment that inference can reach, for a type over its
variables that is nested at most 64 deep when all variables are replaced by what they stand for: no
variable in what it is expanded to stands for anything; nothing is reported; it is expanded to
itself if it was expanded already; what it is expanded to is expanded to itself; and no type that
existed has changed. -/
theorem expand_is_closure (he : e.Reachable) (hi : e.Over i)
    (hdepth : ∀ m, (e.formAt m i).height ≤ 64) : let j := (expand keep i e).1
    let e' := (expand keep i e).2
    e'.IsExpanded j ∧ e'.faults = e.faults ∧ (e.IsExpanded i → expand keep i e = (i, e)) ∧
      expand keep j e' = (j, e') ∧ ∀ k ty, e.types.lookup? k = some ty →
        e'.types.lookup? k = some ty ∧ e'.types.view k = e.types.view k := by
  intro j e'
  have good := he.good
  have hwrites : e.Writes depthLimit i j e' := expansion_keep.yields_expandAt good hi
  have hcloses : e.Closes (e.IsExpanded i) i j e' :=
    yields_expandAt_closes good ⟨hi, fun m => Nat.lt_succ_of_le (hdepth m)⟩
  have hexp : e'.IsExpanded j := by
    have hbound : e'.isBound = e.isBound := funext fun h => by
      cases h <;> simp [Env.isBound, hwrites.grows.binding?_eq]
    rw [Env.IsExpanded, hwrites.form, hbound]
    exact good.all_formAt hi
  have hnests : e'.Nests depthLimit j := by
    refine ⟨hwrites.isOver, fun m => Nat.lt_succ_of_le ?_⟩
    refine (hexp.height_formAt_le hwrites.good hwrites.isOver m).trans ?_
    rw [hwrites.form]
    exact hdepth depthLimit
  have hagain : e'.Closes (e'.IsExpanded j) j _ _ := yields_expandAt_closes hwrites.good hnests
  refine ⟨hexp, hcloses.faults, fun h => ?_, ?_, fun k ty hlook => ?_⟩
  · exact Prod.ext (hcloses.same h).1 (hcloses.same h).2
  · exact Prod.ext (hagain.same hexp).1 (hagain.same hexp).2
  · exact ⟨hwrites.grows.types.lookup? hlook, hwrites.grows.types.view_eq good.types hlook⟩

/-- The optional type of a variable that stands for an integer is expanded to a new type, once. -/
theorem expand_is_closure_optional :
    let e₁ := (fresh .zero (Env.initial .initial)).2
    let e₂ := { e₁ with types := (e₁.types.intern ⟨.optional 22, .default⟩).1 }
    let e := (unify 22 Builtin.int .zero e₂).2
    let e' := (expand keep 23 e).2
    (expand keep 23 e).1 = 24 ∧ e'.IsExpanded 24 ∧ expand keep 24 e' = (24, e') := by
  intro e₁ e₂ e e'
  have hover : e₂.Over 22 := .var (v := 1) (by decide +kernel) rfl (by decide +kernel)
  have hreach : e.Reachable := by
    refine ⟨.initial, .initial, .step (.step (.step .refl (.fresh .zero)) (.types ?_))
      (.unify _ _ _ hover (.atom (a := .int 0) (by decide +kernel)))⟩
    exact .intern _ _ (by decide) (by decide +kernel) (by decide)
  have hopt : e.types.view 23 = .wrap .optional 22 := by decide +kernel
  have hover' : e.Over 23 := .wrap hopt (.var (v := 1) (by decide +kernel) rfl (by decide +kernel))
  have hint : e.types.view Builtin.int = .atom (.int 0) := by decide +kernel
  have hway : e.Way 22 [1] Builtin.int :=
    .step (by decide +kernel) (by decide +kernel) (.stop (by simp [hint]))
  have hstop : e.Way 23 [] 23 := .stop (by simp [hopt])
  have hlook : e.types.lookup? 23 = some (.ofShape (.optional 22)) := by decide +kernel
  have hlook' : e.types.lookup? Builtin.int = some (.ofShape (.int 0)) := by decide +kernel
  have hdepth (m : Nat) : (e.formAt m 23).height ≤ 64 := by
    obtain _ | _ | m := m
    · decide
    · decide +kernel
    · rw [hstop.formAt_succ hreach.good hlook, hopt, View.parts, List.map_singleton,
        hway.formAt_succ hreach.good hlook', hint]
      simp [Form.height, Form.heightOf, View.parts]
  have hnew : (expand keep 23 e).1 = 24 := by decide +kernel
  obtain ⟨hexp, -, -, hagain, -⟩ := expand_is_closure hreach hover' hdepth
  rw [hnew] at hexp hagain
  exact ⟨hnew, hexp, hagain⟩

end UnitCheck.Typing
