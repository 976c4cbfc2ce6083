import UnitCheck.Proofs.Typing.Acyclic

/-!
# Unification loses no solution

An assignment of forms to all variables *respects* an environment if it solves every binding and
gives every literal a number that its kind fits (`Env.Respects`). If such an assignment makes two
types equal, then unifying them succeeds, and the assignment still respects the environment behind.
So each binding that unification makes is one that every solution has to make.

The types must bear no modifiers, since binding a variable drops them and comparing known types may
ask for a copy because of them. The depth to which unification and the search for a variable in a
type look is no limit as long as the common form is not nested deeper. The search never finds the
variable: inside of a type that is equal to the variable under the assignment, everything is nested
less deeply than the variable.
-/

namespace UnitCheck.Typing

open List TypeTable

variable {e e' : Env} {i j k a b : TypeId} {v w : VarId} {vs : List VarId} {s : VarId → Form}
    {n : Nat}

namespace Env

/-! ## Solutions -/

/-- The assignment solves the bindings and gives literals numbers that they fit. -/
structure Respects (e : Env) (s : VarId → Form) : Prop where
  bound : ∀ {v : VarId} {j : TypeId}, e.binding? v = some j → s v = e.types.formOf s j
  literal : ∀ {v : VarId} {k : Kind}, e.literal? v = some k → e.binding? v = none →
    ∃ m a, s v = .node m (.atom a) [] ∧ k.fits a.kind

theorem Respects.assigned (h : e.Respects s) (hv : s v = e.types.formOf s j) :
    (e.assigned v j).Respects s where
  bound {w k} hw := by
    by_cases heq : w = v
    · subst heq
      rw [binding?_assigned_self] at hw
      cases hw
      exact hv
    · rw [binding?_assigned_of_ne heq] at hw
      exact h.bound hw
  literal {w k} hw hfree := by
    have hne : w ≠ v := by
      rintro rfl
      rw [binding?_assigned_self] at hfree
      cases hfree
    rw [binding?_assigned_of_ne hne] at hfree
    exact h.literal hw hfree

theorem Respects.withLiteral {k : Kind} (h : e.Respects s)
    (hv : ∃ m a, s v = .node m (.atom a) [] ∧ k.fits a.kind) :
    Respects { e with literals := (v, k) :: e.literals } s where
  bound := h.bound
  literal {w k'} hw hfree := by
    by_cases heq : w = v
    · subst heq
      have hk : some k = some k' := by simpa [literal?] using hw
      cases hk
      exact hv
    · have hw : e.literal? w = some k' := by
        simpa only [literal?, lookup_cons, beq_eq_false_iff_ne.2 heq] using hw
      exact h.literal hw hfree

theorem Keeps.respects (h : e.Keeps e') (good : e.Good) (hs : e.Respects s) : e'.Respects s where
  bound {v j} hv := by
    rw [h.grows.binding?_eq] at hv
    rw [hs.bound hv, h.formOf_eq good (good.bound hv).isOver]
  literal {v k} hv hfree := by
    rw [h.grows.literal?_eq] at hv
    rw [h.grows.binding?_eq] at hfree
    exact hs.literal hv hfree

/-! ## Types without modifiers -/

/-- No modifier is met anywhere in the type, also not behind variables. -/
def Unmodified (e : Env) (i : TypeId) : Prop :=
  ∀ k, Relation.ReflTransGen e.Leads i k → (e.types.describe k).modifier = .default

namespace Unmodified

theorem self (h : e.Unmodified i) : (e.types.describe i).modifier = .default := h i .refl

theorem leads (h : e.Unmodified i) (hj : e.Leads i j) : e.Unmodified j :=
  fun k hk => h k (.head hj hk)

theorem intro (h : (e.types.describe i).modifier = .default)
    (hleads : ∀ j, e.Leads i j → e.Unmodified j) : e.Unmodified i := by
  intro k hk
  obtain rfl | ⟨j, hj, hk⟩ := Relation.ReflTransGen.cases_head hk
  · exact h
  · exact hleads j hj k hk

theorem lookup? (h : e.Unmodified i) {ty : Ty} (hlook : e.types.lookup? i = some ty) :
    ty.modifier = .default := by
  have hself := h.self
  rwa [TypeTable.describe, hlook] at hself

/-- A variable that comes to stand for a type without modifiers brings none anywhere. -/
theorem assigned (hi : e.Unmodified i) (hj : e.Unmodified j) : (e.assigned v j).Unmodified i := by
  intro k hk
  -- whatever is met now was met before, in the type or in what the variable stands for
  have hmet : Relation.ReflTransGen e.Leads i k ∨ Relation.ReflTransGen e.Leads j k := by
    induction hk with
    | refl => exact .inl .refl
    | @tail k l _ hl ih =>
      cases hl with
      | part hp => exact ih.imp (·.tail (.part hp)) (·.tail (.part hp))
      | @bound w l hw hbound =>
        by_cases heq : w = v
        · subst heq
          rw [binding?_assigned_self] at hbound
          cases hbound
          exact .inr .refl
        · rw [binding?_assigned_of_ne heq] at hbound
          exact ih.imp (·.tail (.bound hw hbound)) (·.tail (.bound hw hbound))
  exact hmet.elim (hi k) (hj k)

/-- New types in the table bring no modifier into a type that was there. -/
theorem keeps (hi : e.Unmodified i) (hover : e.Over i) (good : e.Good) (h : e.Keeps e') :
    e'.Unmodified i := by
  intro k hk
  have hmet : e.Over k ∧ Relation.ReflTransGen e.Leads i k := by
    induction hk with
    | refl => exact ⟨hover, .refl⟩
    | @tail k l _ hl ih =>
      obtain ⟨hk, hreach⟩ := ih
      have hview := hk.view_eq good.types h.grows.types
      cases hl with
      | part hp =>
        rw [hview] at hp
        exact ⟨hk.part hp, hreach.tail (.part hp)⟩
      | bound hw hbound =>
        rw [hview] at hw
        rw [h.grows.binding?_eq] at hbound
        exact ⟨(good.bound hbound).isOver, hreach.tail (.bound hw hbound)⟩
  have hmodifier := hi k hmet.2
  obtain rfl | ⟨ty, hlook⟩ := hmet.1.eq_zero_or_lookup?
  · exact hmodifier
  · rw [TypeTable.describe, hlook] at hmodifier
    rw [TypeTable.describe, h.grows.types.lookup? hlook]
    exact hmodifier

theorem withLiteral {l : List (VarId × Kind)} (hi : e.Unmodified i) :
    Unmodified { e with literals := l } i := by
  intro k hk
  refine hi k ?_
  induction hk with
  | refl => exact .refl
  | tail _ hl ih =>
    cases hl with
    | part hp => exact ih.tail (.part hp)
    | bound hw hbound => exact ih.tail (.bound hw hbound)

end Unmodified

theorem Good.modifier_of_bound (good : e.Good) (hv : e.binding? v = some j) :
    (e.types.describe j).modifier = .default := by
  obtain ⟨shape, hlook⟩ := (good.bound hv).unmodified
  rw [TypeTable.describe, hlook]
  rfl

/-- The two ends of a way have the same form under a solution. -/
theorem Way.formOf_eq (h : e.Way i vs k) (good : e.Good) (hs : e.Respects s)
    (hi : (e.types.describe i).modifier = .default) : e.types.formOf s i = e.types.formOf s k := by
  induction h with
  | stop => rfl
  | step hview hbound _ ih =>
    obtain ⟨m, hlook⟩ := lookup?_of_view_var hview
    rw [TypeTable.describe, hlook] at hi
    have hi : m = .default := hi
    rw [formOf_var hlook, hi, Form.qualified_default, hs.bound hbound]
    exact ih (good.modifier_of_bound hbound)

theorem Way.unmodified (h : e.Way i vs k) (good : e.Good) (hk : e.Unmodified k)
    (hi : (e.types.describe i).modifier = .default) : e.Unmodified i := by
  induction h with
  | stop => exact hk
  | step hview hbound _ ih =>
    refine .intro hi fun j hj => ?_
    cases hbound.symm.trans (hj.of_var hview)
    exact ih hk (good.modifier_of_bound hbound)

theorem Way.unmodified_end (h : e.Way i vs k) (hi : e.Unmodified i) : e.Unmodified k := by
  induction h with
  | stop => exact hi
  | step hview hbound _ ih => exact ih (hi.leads (.bound hview hbound))

/-- A type whose written-out form bears no modifier and is not cut is one in which no modifier is
met. -/
theorem unmodified_of_formAt (good : e.Good) (hs : e.Respects s) (hi : e.Over i)
    (hheight : (e.types.formOf s i).height < n) (h : (e.formAt n i).isUnmodified = true) :
    e.Unmodified i := by
  induction n generalizing i with
  | zero => omega
  | succ n ih =>
    by_cases h0 : i = 0
    · subst h0
      refine .intro rfl fun j hj => ?_
      cases hj.mem_parts (by simp)
    obtain ⟨vs, k, hway⟩ := good.exists_way i
    obtain ⟨ty, hlook⟩ := hway.exists_lookup? good hi h0
    rw [hway.formAt_succ good hlook, Form.isUnmodified, Form.all_node, decide_eq_true_iff,
      Modifier.under] at h
    obtain ⟨hunder, hparts⟩ := h
    have houter : (e.types.describe i).modifier = .default := by
      by_contra hne
      rw [if_neg hne] at hunder
      exact hne hunder
    have hinner : ty.modifier = .default := by rwa [if_pos houter] at hunder
    refine hway.unmodified good (.intro ?_ fun p hp => ?_) houter
    · rw [TypeTable.describe, hlook]
      exact hinner
    · -- nothing is bound at the end of the way, so only its parts are met from there
      have hp : p ∈ (e.types.view k).parts := by
        cases hp with
        | part hp => exact hp
        | bound hview hbound => cases (hway.stops hview).symm.trans hbound
      have hvar : ∀ v, ty.shape ≠ .var v := by
        refine shape_ne_var hlook fun v hv => ?_
        rw [hv] at hp
        cases hp
      have hform : e.types.formOf s i = _ :=
        (hway.formOf_eq good hs houter).trans (good.types.formOf_node hlook hvar)
      rw [hform] at hheight
      have hlt := Form.height_lt (m := ty.modifier) (h := ty.shape.head)
        (mem_map_of_mem (f := e.types.formOf s) hp)
      exact ih ((hway.isOver good hi).part hp) (by omega) (hparts _ (mem_map_of_mem hp))

end Env

open Env

/-! ## Following and searching -/

theorem Env.Way.resolve_of_unmodified (h : e.Way i vs k) (good : e.Good) (hi : e.Unmodified i) :
    resolve i e = (k, e) := by
  cases hlook : e.types.lookup? i with
  | none =>
    have hik : i = k := by
      cases h with
      | stop => rfl
      | step hview =>
        rw [view_eq_missing_iff.2 hlook] at hview
        cases hview
    rw [resolve_eq_of_none hlook, hik]
  | some outer => rw [h.resolve_eq good hlook, if_pos (hi.lookup? hlook)]

theorem unqualified_of_unmodified (hi : e.Unmodified i) : unqualified i e = (i, e) := by
  show ((e.types.withModifier i .default).2,
    { e with types := (e.types.withModifier i .default).1 }) = _
  unfold TypeTable.withModifier
  cases hlook : e.types.lookup? i with
  | none => rfl
  | some ty =>
    have hm := hi.lookup? hlook
    simp only [hm, if_true]

theorem anyType_eq_false {f : TypeId → Solve Bool} {is : List TypeId}
    (h : ∀ i ∈ is, f i e = (false, e)) : anyType f is e = (false, e) := by
  induction is with
  | nil => rfl
  | cons i is ih =>
    obtain ⟨hi, his⟩ := forall_mem_cons.1 h
    show (if (f i e).1 then (pure true : Solve Bool) else anyType f is) (f i e).2 = _
    rw [hi]
    exact ih his

/-- A variable is not found in a type that is nested less deeply under a solution, nor in a type
that is no variable and not nested more deeply. -/
theorem occursAt_eq_false (good : e.Good) (hs : e.Respects s) (hover : e.Over i)
    (hi : e.Unmodified i) (hn : (e.types.formOf s i).height < n)
    (hv : (e.types.formOf s i).height < (s v).height ∨
      (e.types.formOf s i).height ≤ (s v).height ∧ ∀ w, e.types.view i ≠ .var w) :
    occursAt v n i e = (false, e) := by
  induction n generalizing i with
  | zero => omega
  | succ n ih =>
    obtain ⟨vs, k, hway⟩ := good.exists_way i
    have hk := hway.unmodified_end hi
    have hoverk := hway.isOver good hover
    have hform := hway.formOf_eq good hs hi.self
    rw [occursAt_succ, bind_apply_of_eq (hway.resolve_of_unmodified good hi), get_bind_apply]
    -- each part is nested less deeply than the variable
    have hpart {p : TypeId} (hp : p ∈ (e.types.view k).parts) : occursAt v n p e = (false, e) := by
      have hk0 : k ≠ 0 := by
        rintro rfl
        cases hp
      obtain hzero | ⟨ty, hlook⟩ := hoverk.eq_zero_or_lookup?
      · exact absurd hzero hk0
      have hvar : ∀ v, ty.shape ≠ .var v := by
        refine shape_ne_var hlook fun v hv => ?_
        rw [hv] at hp
        cases hp
      rw [good.types.formOf_node hlook hvar] at hform
      have hlt := Form.height_lt (m := ty.modifier) (h := ty.shape.head)
        (mem_map_of_mem (f := e.types.formOf s) hp)
      rw [← hform] at hlt
      exact ih (hoverk.part hp) (hk.leads (.part hp)) (by omega) (.inl (by omega))
    cases hview : e.types.view k with
    | missing | atom => rfl
    | wrap w elem => exact hpart (by rw [hview]; exact mem_singleton.2 rfl)
    | fn ps r =>
      have hps : ∀ p ∈ ps, occursAt v n p e = (false, e) := fun p hp =>
        hpart (by rw [hview]; exact mem_cons_of_mem r hp)
      show (if (anyType (occursAt v n) ps e).1 then (pure true : Solve Bool) else occursAt v n r)
        (anyType (occursAt v n) ps e).2 = _
      rw [anyType_eq_false hps]
      exact hpart (by rw [hview]; exact mem_cons_self)
    | var w =>
      have hne : w ≠ v := by
        rintro rfl
        obtain ⟨m, hlook⟩ := lookup?_of_view_var hview
        have hm : m = .default := hk.lookup? hlook
        rw [formOf_var hlook, hm, Form.qualified_default] at hform
        obtain hlt | ⟨-, hnot⟩ := hv
        · rw [hform] at hlt
          exact Nat.lt_irrefl _ hlt
        · cases hway with
          | stop => exact hnot w hview
          | step hview' => exact hnot _ hview'
      show (decide (w = v), e) = _
      rw [decide_eq_false hne]

/-! ## Binding -/

/-- A type of the environment in which no modifier is met. -/
structure Env.Plain (e : Env) (i : TypeId) : Prop where
  isOver : e.Over i
  unmodified : e.Unmodified i

theorem Env.Plain.part (h : e.Plain i) (hp : j ∈ (e.types.view i).parts) : e.Plain j :=
  ⟨h.isOver.part hp, h.unmodified.leads (.part hp)⟩

/-- What unification does under a solution: it succeeds without a report, and the solution stays
one. -/
structure Env.Solves (e : Env) (s : VarId → Form) (fit : Fit) (e' : Env) : Prop where
  ok : fit = .ok
  faults : e'.faults = e.faults
  respects : e'.Respects s
  unmodified : ∀ {i : TypeId}, e.Plain i → e'.Unmodified i

theorem Env.Solves.refl (hs : e.Respects s) : e.Solves s .ok e :=
  ⟨rfl, rfl, hs, fun hi => hi.unmodified⟩

theorem formOf_of_view_var (hi : e.Unmodified i) (hview : e.types.view i = .var v) :
    e.types.formOf s i = s v := by
  obtain ⟨m, hlook⟩ := lookup?_of_view_var hview
  have hm : m = .default := hi.lookup? hlook
  rw [formOf_var hlook, hm, Form.qualified_default]

/-- The kind of a type that is no variable, by its form. -/
theorem kind_of_formOf_atom (good : e.Good) (hi : e.Over i) (hvar : ∀ v, e.types.view i ≠ .var v)
    {m : Modifier} {x : Atom} (h : e.types.formOf s i = .node m (.atom x) []) :
    e.types.kind i = x.kind := by
  obtain rfl | ⟨⟨shape, modifier⟩, hlook⟩ := hi.eq_zero_or_lookup?
  · cases h
  · rw [good.types.formOf_node hlook (shape_ne_var hlook hvar)] at h
    have hhead : shape.head = .atom x := by
      injection h
    rw [TypeTable.kind, hlook]
    cases shape <;> cases hhead <;> rfl

theorem solves_bindVars (good : e.Good) (hs : e.Respects s) (hb : e.Plain b)
    (hviewb : e.types.view b = .var w) (hfree : e.binding? v = none) (ha : e.Plain a)
    (hview : e.types.view a = .var v) (hequal : s v = s w) :
    Yields (bindVars v w b) e fun _ e' => e.Solves s .ok e' := by
  have hform : e.types.formOf s b = s w := formOf_of_view_var hb.unmodified hviewb
  have hbound : e.Solves s .ok (e.assigned v b) :=
    ⟨rfl, rfl, hs.assigned (hequal.trans hform.symm),
      fun hi => hi.unmodified.assigned hb.unmodified⟩
  refine .get_bind ?_
  split
  next lit other hlit hother =>
    split
    next =>
      -- the first literal has a number that fits its kind, and the second has the same number
      obtain ⟨m, x, hx, hfits⟩ := hs.literal hlit hfree
      have hs1 := hs.withLiteral ⟨m, x, hequal.symm.trans hx, hfits⟩
      exact ⟨rfl, rfl, hs1.assigned (hequal.trans hform.symm),
        fun hi => hi.unmodified.withLiteral.assigned hb.unmodified.withLiteral⟩
    next => exact hbound
  next =>
    have hvarType : Yields (varType v) e fun c e1 =>
        e.Makes (.ofShape (.var v)) c e1 ∧ e1.faults = e.faults := ⟨yields_varType good v, rfl⟩
    refine hvarType.bind fun c e1 ⟨hmade, hfaults⟩ => ?_
    have hs1 := hmade.toKeeps.respects good hs
    have hc : e1.types.formOf s c = s v := by
      rw [formOf_var hmade.lookup?, Form.qualified_default]
    have hviewc : e1.types.view c = .var v := view_of_var hmade.lookup?
    have hviewa := (ha.isOver.view_eq good.types hmade.grows.types).trans hview
    -- the new type is the same variable as the first one
    have hc1 : e1.Unmodified c := by
      refine .intro ?_ fun j hj => ?_
      · rw [TypeTable.describe, hmade.lookup?]
        rfl
      · exact (ha.unmodified.keeps ha.isOver good hmade.toKeeps).leads
          (.bound hviewa (hj.of_var hviewc))
    exact ⟨rfl, hfaults, hs1.assigned (hequal.symm.trans hc.symm),
      fun hi => (hi.unmodified.keeps hi.isOver good hmade.toKeeps).assigned hc1⟩
  next => exact hbound

/-- Two types without modifiers that the solution makes equal and nests less deeply than `n`. -/
structure Env.Matches (e : Env) (s : VarId → Form) (n : Nat) (a b : TypeId) : Prop where
  left : e.Plain a
  right : e.Plain b
  equal : e.types.formOf s a = e.types.formOf s b
  height : (e.types.formOf s a).height < n

theorem Env.Matches.symm (h : e.Matches s n a b) : e.Matches s n b a :=
  ⟨h.right, h.left, h.equal.symm, h.equal ▸ h.height⟩

/-- Letting a variable stand for a type that is equal to it under the solution. -/
theorem solves_bind (good : e.Good) (hs : e.Respects s) (h : e.Matches s depthLimit a b)
    (hview : e.types.view a = .var v) (hfree : e.binding? v = none) :
    Yields (bind v b) e (e.Solves s) := by
  obtain ⟨ha, hb, hequal, hheight⟩ := h
  rw [formOf_of_view_var ha.unmodified hview] at hequal hheight
  refine .step (unqualified_of_unmodified hb.unmodified) (.get_bind ?_)
  cases hvar : e.varOf? b with
  | some w =>
    obtain ⟨hviewb, hvalid⟩ := varOf?_eq_some_iff.1 hvar
    have hequal : s v = s w := hequal.trans (formOf_of_view_var hb.unmodified hviewb)
    simp only [Option.getD_some]
    split
    · exact .pure (.refl hs)
    · refine (solves_bindVars good hs hb hviewb hfree ha hview hequal).bind fun _ e' h => ?_
      exact .pure h
  | none =>
    have hv0 : (0 : VarId) ≠ v := by
      rintro rfl
      exact absurd (ha.isOver.var_bound hview).1 (by decide)
    have hnot (w : VarId) : e.types.view b ≠ .var w := by
      intro hw
      rw [varOf?_eq_some_iff.2 ⟨hw, (hb.isOver.var_bound hw).1⟩] at hvar
      cases hvar
    -- the variable is not in a type that is no variable and nested as deeply
    have hbound : Yields (bindType v b) e (e.Solves s) := by
      refine .step (occursAt_eq_false good hs hb.isOver hb.unmodified (hequal ▸ hheight)
        (.inr ⟨Nat.le_of_eq (congrArg _ hequal.symm), hnot⟩)) ?_
      exact ⟨rfl, rfl, hs.assigned hequal, fun hi => hi.unmodified.assigned hb.unmodified⟩
    simp only [Option.getD_none, if_neg hv0]
    refine .get_bind ?_
    split
    next => exact hbound
    next lit hlit =>
      -- under the solution the literal is a number, so the type is one
      obtain ⟨m, x, hx, hfits⟩ := hs.literal hlit hfree
      have hkind : e.types.kind b = x.kind :=
        kind_of_formOf_atom good hb.isOver hnot (hequal.symm.trans hx)
      obtain ⟨⟨⟨-, hnumeric⟩, htyped⟩, -⟩ : ((lit.isUntyped = true ∧ x.kind.isNumeric = true) ∧
          x.kind.isUntyped = false) ∧ _ := by
        simpa only [Kind.fits, Bool.and_eq_true, Bool.not_eq_true'] using hfits
      refine .get_bind ?_
      rw [hkind, if_neg, if_neg, if_pos hfits]
      · exact hbound
      · simp [htyped]
      · rintro herror
        rw [herror] at hnumeric
        cases hnumeric

/-! ## Unifying -/

/-- What unification does under a solution, and that the environment behind is good. -/
structure Env.Advances (e : Env) (s : VarId → Form) (fit : Fit) (e' : Env) : Prop
    extends e.Solves s fit e' where
  good : e'.Good
  ext : e.Extends e'

namespace Env.Advances

variable {fit fit' : Fit} {e'' : Env}

theorem trans (h : e.Advances s fit e') (h' : e'.Advances s fit' e'') (good : e.Good) :
    e.Advances s fit' e'' where
  ok := h'.ok
  faults := h'.faults.trans h.faults
  respects := h'.respects
  unmodified hi := h'.unmodified ⟨h.ext.isOver good hi.isOver, h.unmodified hi⟩
  good := h'.good
  ext := h.ext.trans h'.ext

/-- Forms under the solution do not change, so what matched matches still. -/
theorem matched (h : e.Advances s fit e') (good : e.Good) (hab : e.Matches s n a b) :
    e'.Matches s n a b := by
  have hplain {i : TypeId} (hi : e.Plain i) : e'.Plain i :=
    ⟨h.ext.isOver good hi.isOver, h.unmodified hi⟩
  have hform {i : TypeId} (hi : e.Plain i) : e'.types.formOf s i = e.types.formOf s i :=
    good.types.formOf_extends h.good.types h.ext.types (hi.isOver.lt_size good.types)
  refine ⟨hplain hab.left, hplain hab.right, ?_, ?_⟩
  · rw [hform hab.left, hform hab.right, hab.equal]
  · rw [hform hab.left]
    exact hab.height

end Env.Advances

/-- What is asked of the unification of parts: that it finds every solution that is nested less
deeply than `n`. -/
def Complete (s : VarId → Form) (n : Nat) (unify : TypeId → TypeId → Solve Fit) : Prop :=
  ∀ {e : Env} {a b : TypeId}, e.Good → e.Respects s → e.Matches s n a b →
    Yields (unify a b) e (e.Advances s)

section Parts

variable {unify : TypeId → TypeId → Solve Fit}

variable {ps qs : List TypeId}

section

variable (hunify : Complete s n unify) (good : e.Good) (hs : e.Respects s)
include hunify good hs

theorem solves_unifyParams (h : List.Forall₂ (e.Matches s n) ps qs) :
    Yields (unifyParams unify ps qs) e (e.Advances s) := by
  induction ps generalizing qs e with
  | nil =>
    exact ⟨.refl hs, good, .refl e⟩
  | cons p ps ih =>
    obtain _ | ⟨hpq, hrest⟩ := h
    refine (hunify good hs hpq).bind fun fit e1 h1 => ?_
    rw [h1.ok]
    have hrest1 := hrest.imp fun _ _ => h1.matched good
    exact (ih h1.good h1.respects hrest1).mono fun fit' e' h2 => h1.trans h2 good

theorem solves_unifyFn {r t : TypeId} (hva : e.types.view a = .fn ps r)
    (hvb : e.types.view b = .fn qs t) (h : List.Forall₂ (e.Matches s n) (r :: ps) (t :: qs)) :
    Yields (unifyFn unify a b) e (e.Solves s) := by
  obtain _ | ⟨hresult, hparams⟩ := h
  refine .get_bind ?_
  dsimp only
  rw [TypeTable.signature?_of_view hva, TypeTable.signature?_of_view hvb]
  dsimp only
  rw [if_neg (not_not.2 hparams.length_eq)]
  refine (solves_unifyParams hunify good hs hparams).bind fun fit e1 h1 => ?_
  rw [h1.ok]
  exact (hunify h1.good h1.respects (h1.matched good hresult)).mono
    fun fit' e' h2 => (h1.trans h2 good).toSolves

theorem solves_unifyParts
    {sa sb : Shape} {ma mb : Modifier} (hla : e.types.lookup? a = some ⟨sa, ma⟩)
    (hlb : e.types.lookup? b = some ⟨sb, mb⟩) (hhead : sa.head = sb.head)
    (hparts : List.Forall₂ (e.Matches s n) (e.types.view a).parts (e.types.view b).parts) :
    Yields (unifyParts unify a b sa sb) e (e.Solves s) := by
  have hwrap {wa wb : Wrapper} {ea eb : TypeId} (hwa : sa.wrap? = some (wa, ea))
      (hwb : sb.wrap? = some (wb, eb)) : Yields (unify ea eb) e (e.Solves s) := by
    rw [view_of_wrap hla hwa, view_of_wrap hlb hwb] at hparts
    obtain _ | ⟨helem, -⟩ := hparts
    exact (hunify good hs helem).toSolves
  have hatoms {p : Prop} [Decidable p] (hp : p) :
      Yields (pure (if p then .ok else .no)) e (e.Solves s) := by
    rw [if_pos hp]
    exact .pure (.refl hs)
  unfold unifyParts
  split
  next =>
    cases hhead
    rw [if_neg (not_not.2 rfl), if_neg (fun h => h.2 rfl)]
    exact hwrap rfl rfl
  next =>
    cases hhead
    rw [if_neg (not_not.2 rfl)]
    exact hwrap rfl rfl
  next => exact hwrap rfl rfl
  next => exact hwrap rfl rfl
  next =>
    obtain ⟨ps, r, hva⟩ := good.types.view_of_fn hla
    obtain ⟨qs, t, hvb⟩ := good.types.view_of_fn hlb
    rw [hva, hvb] at hparts
    exact solves_unifyFn hunify good hs hva hvb hparts
  iterate 4 next =>
    cases hhead
    exact hatoms rfl
  next => exact .pure (.refl hs)

theorem solves_unifyKnown
    (h : e.Matches s (n + 1) a b) {ta tb : Ty} (hla : e.types.lookup? a = some ta)
    (hlb : e.types.lookup? b = some tb) (hva : ∀ v, e.types.view a ≠ .var v)
    (hvb : ∀ v, e.types.view b ≠ .var v) : Yields (unifyKnown unify a b ta tb) e (e.Solves s) := by
  have hforma : e.types.formOf s a = _ := good.types.formOf_node hla (shape_ne_var hla hva)
  have hformb : e.types.formOf s b = _ := good.types.formOf_node hlb (shape_ne_var hlb hvb)
  obtain ⟨-, hhead, hforms⟩ := Form.node.inj (hforma.symm.trans (h.equal.trans hformb))
  have hkind : ta.kind = tb.kind := Shape.kind_eq_of_head hhead
  -- parts at the same place have the same form, which is nested less deeply
  have hparts : List.Forall₂ (e.Matches s n) (e.types.view a).parts (e.types.view b).parts := by
    refine forall₂_iff_get.2 ⟨by simpa using congrArg List.length hforms, fun k hk hk' => ?_⟩
    have hp := get_mem (e.types.view a).parts ⟨k, hk⟩
    refine ⟨h.left.part hp, h.right.part (get_mem _ ⟨k, hk'⟩), ?_, ?_⟩
    · simpa [hk, hk'] using congrArg (·[k]?) hforms
    · have hlt := Form.height_lt (m := ta.modifier) (h := ta.shape.head)
        (mem_map_of_mem (f := e.types.formOf s) hp)
      rw [← hforma] at hlt
      exact hlt.trans_le (Nat.le_of_lt_succ h.height)
  unfold unifyKnown
  split
  · exact .pure (.refl hs)
  have hfit : fitModifiers ta.modifier tb.modifier b e = (.ok, e) := by
    unfold fitModifiers
    rw [if_pos (.inl (h.left.unmodified.lookup? hla))]
    rfl
  refine .step hfit ?_
  unfold unifyShapes
  have hreferent : (if ta.kind = .reference then none else tb.shape.referent?) = none := by
    split
    · rfl
    next hne =>
      rw [hkind] at hne
      obtain ⟨sb, mb⟩ := tb
      cases sb with
      | reference => exact absurd rfl hne
      | plain | int | uint | float | array | pointer | optional | named | fn | var => rfl
  rw [hreferent]
  dsimp only
  split
  · exact .pure (.refl hs)
  rw [if_neg (not_not.2 hkind)]
  refine (solves_unifyParts hunify good hs hla hlb hhead hparts).bind fun fit e' h => .pure ?_
  rw [h.ok]
  exact { h with ok := rfl }

end

end Parts

/-- Unification finds every solution that is not nested more deeply than it looks. -/
theorem complete_unifyAt (hn : n ≤ depthLimit) : Complete s n (unifyAt n) := by
  induction n with
  | zero => exact fun _ _ h => absurd h.height (Nat.not_lt_zero _)
  | succ n ih =>
    intro e expect got good hs h
    have hsound := sound_unifyAt (n + 1) good h.left.isOver h.right.isOver
    refine ⟨?_, hsound.good, hsound.ext⟩
    obtain ⟨vs, a, hwaya⟩ := good.exists_way expect
    obtain ⟨ws, b, hwayb⟩ := good.exists_way got
    -- the ends of the two ways have the same form, and it is enough to unify them
    have hforma := hwaya.formOf_eq good hs h.left.unmodified.self
    have hformb := hwayb.formOf_eq good hs h.right.unmodified.self
    have hab : e.Matches s (n + 1) a b :=
      ⟨⟨hwaya.isOver good h.left.isOver, hwaya.unmodified_end h.left.unmodified⟩,
        ⟨hwayb.isOver good h.right.isOver, hwayb.unmodified_end h.right.unmodified⟩,
        by rw [← hforma, h.equal, hformb], hforma ▸ h.height⟩
    have hdeep : e.Matches s depthLimit a b := { hab with height := hab.height.trans_le hn }
    rw [unifyAt_succ]
    refine Yields.step (hwaya.resolve_of_unmodified good h.left.unmodified) ?_
    refine .step (hwayb.resolve_of_unmodified good h.right.unmodified) ?_
    split
    · exact .pure (.refl hs)
    next hvalid =>
      obtain ⟨hvalida, hvalidb⟩ := not_or.1 hvalid
      have ha0 : a ≠ 0 := by
        rintro rfl
        exact hvalida (by decide)
      have hb0 : b ≠ 0 := by
        rintro rfl
        exact hvalidb (by decide)
      refine .get_bind ?_
      dsimp only
      split
      next v hviewa => exact solves_bind good hs hdeep hviewa (hwaya.stops hviewa)
      next v hviewb _ => exact solves_bind good hs hdeep.symm hviewb (hwayb.stops hviewb)
      next hna hnb =>
        obtain ⟨ta, hla, hta⟩ := exists_describe (hab.left.isOver.view_ne_missing ha0)
        obtain ⟨tb, hlb, htb⟩ := exists_describe (hab.right.isOver.view_ne_missing hb0)
        rw [hta, htb]
        exact solves_unifyKnown (ih (by omega)) good hs hab hla hlb hna hnb

/-- Unification loses no solution. Take two types of a reachable environment in whose written-out
forms no modifier stands, and any assignment of forms to variables that respects the environment,
makes the two types equal and does not nest them more than 64 levels deep. Then they are found to
fit, nothing is reported, and the assignment respects the environment that results. -/
theorem unify_keeps_solutions {expect got : TypeId} (span : Span) (he : e.Reachable)
    (hexpect : e.Over expect) (hgot : e.Over got)
    (hplain : (e.expandedForm expect).isUnmodified = true)
    (hplain' : (e.expandedForm got).isUnmodified = true) (hs : e.Respects s)
    (hequal : e.types.formOf s expect = e.types.formOf s got)
    (hdeep : (e.types.formOf s expect).height ≤ 64) :
    (unify expect got span e).1 = .ok ∧ (unify expect got span e).2.faults = e.faults ∧
      (unify expect got span e).2.Respects s := by
  have good := he.good
  have hlimit : (e.types.formOf s expect).height < depthLimit := Nat.lt_succ_of_le hdeep
  rw [expandedForm_eq good hexpect] at hplain
  rw [expandedForm_eq good hgot] at hplain'
  have huexpect := unmodified_of_formAt good hs hexpect hlimit hplain
  have hugot := unmodified_of_formAt good hs hgot (hequal ▸ hlimit) hplain'
  have hsolves := complete_unifyAt le_rfl good hs
    ⟨⟨hexpect, huexpect⟩, ⟨hgot, hugot⟩, hequal, hlimit⟩
  have hunify : Yields (unify expect got span) e (e.Solves s) := by
    unfold unify
    refine hsolves.bind fun fit e' h => ?_
    rw [h.ok]
    exact .pure { h.toSolves with ok := rfl }
  exact ⟨hunify.ok, hunify.faults, hunify.respects⟩

/-- The functions from a variable to the optional type of a literal, and those from optional
integers to that variable: what the parameters settle is needed for the results. -/
theorem unify_keeps_solutions_fn :
    let e₁ := (freshLiteral .untypedUint .zero (fresh .zero (Env.initial .initial)).2).2
    let e₂ := { e₁ with types := (e₁.types.intern ⟨.optional 23, .default⟩).1 }
    let e₃ := { e₂ with types := (e₂.types.intern ⟨.optional Builtin.int, .default⟩).1 }
    let e₄ := { e₃ with types := (e₃.types.fn [22] 24).1 }
    let e := { e₄ with types := (e₄.types.fn [25] 22).1 }
    let number : Form := .node .default (.atom (.int 0)) []
    let s := fun v : VarId => if v = 1 then .node .default .optional [number] else number
    e.Respects s ∧ (unify 26 27 .zero e).1 = .ok ∧ (unify 26 27 .zero e).2.faults = e.faults ∧
      (unify 26 27 .zero e).2.Respects s := by
  intro e₁ e₂ e₃ e₄ e number s
  have hreach : e.Reachable := by
    refine ⟨.initial, .initial, .step (.step (.step (.step (.step (.step .refl (.fresh .zero))
      (.freshLiteral .untypedUint .zero rfl)) (.types ?_)) (.types ?_)) (.types ?_)) (.types ?_)⟩
    · exact .intern _ _ (by decide) (by decide +kernel) (by decide)
    · exact .intern _ _ (by decide) (by decide +kernel) (by decide)
    · exact .fn _ _ (by decide +kernel)
    · exact .fn _ _ (by decide +kernel)
  have hvar : e.Over 22 := .var (v := 1) (by decide +kernel) rfl (by decide +kernel)
  have hlit : e.Over 23 := .var (v := 2) (by decide +kernel) rfl (by decide +kernel)
  have hint : e.types.view Builtin.int = .atom (.int 0) := by decide +kernel
  have hopt : e.types.view 24 = .wrap .optional 23 := by decide +kernel
  have hopt' : e.types.view 25 = .wrap .optional Builtin.int := by decide +kernel
  have hfn : e.types.view 26 = .fn [22] 24 := by decide +kernel
  have hfn' : e.types.view 27 = .fn [25] 22 := by decide +kernel
  have hover : e.Over 26 := .fn hfn (by simpa using hvar) (.wrap hopt hlit)
  have hover' : e.Over 27 := .fn hfn' (by simpa using .wrap hopt' (.atom hint)) hvar
  have hs : e.Respects s := by
    refine ⟨fun {v j} hv => ?_, fun {v k} hv _ => ?_⟩
    · rw [binding?, (by decide +kernel : e.bindings = [])] at hv
      cases hv
    · rw [literal?, (by decide +kernel : e.literals = [(2, .untypedUint)]), lookup_cons] at hv
      split at hv
      next heq =>
        cases hv
        cases eq_of_beq heq
        exact ⟨.default, .int 0, rfl, by decide⟩
      next => cases hv
  -- both types are written out as the functions from optional integers to optional integers
  have hlook : [Builtin.int, 22, 23, 24, 25, 26, 27].map e.types.lookup? = [.int 0, .var 1, .var 2,
      .optional 23, .optional Builtin.int, .fn 1, .fn 2].map fun s => some ⟨s, .default⟩ := by
    decide +kernel
  have hforms : e.types.formOf s 26 = e.types.formOf s 27 := by
    change e.types.formAt s 27 26 = e.types.formAt s 28 27
    have hne : ¬ (2 : VarId) = 1 := by decide
    simp only [map_cons, map_nil, cons.injEq] at hlook
    simp [TypeTable.formAt, hlook, hint, hopt, hopt', hfn, hfn', View.parts, Shape.head, s,
      number, hne]
  refine ⟨hs, unify_keeps_solutions .zero hreach hover hover' ?_ ?_ hs hforms ?_⟩
  · decide +kernel
  · decide +kernel
  · decide +kernel

end UnitCheck.Typing
