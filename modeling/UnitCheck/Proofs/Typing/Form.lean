import UnitCheck.Proofs.Typing.Reachable

/-!
# The form that expanding gives

Expanding a type makes types and so changes the table, and its result is an identifier that means
something in the new table only. What it amounts to is a function of the environment before:
`e.formAt n i` is the form of type `i` with variables replaced by what they stand for, `n` levels
deep (`expansion_keep`). Two facts about it follow by induction on the depth.

* It depends on the types and the bindings only, so computations that make types do not change it.
* Once no variable is left in it, it never changes again: the ways that lead to it end at types that
  are no variables, and ways are kept by all that happens later.
-/

namespace UnitCheck.Typing

open TypeTable

variable {e e' e'' : Env} {i j k : TypeId} {vs : List VarId} {n : Nat}

namespace Env

/-! ## The ends of ways -/

theorem Good.exists_way (good : e.Good) (i : TypeId) : ∃ vs k, e.Way i vs k := by
  by_cases h : ∃ v j, e.types.view i = .var v ∧ e.binding? v = some j
  · obtain ⟨v, j, hview, hbound⟩ := h
    obtain ⟨u, hu⟩ := (good.bound hbound).meaning
    obtain ⟨vs, k, hway⟩ := Way.exists_of_denotes hu
    exact ⟨v :: vs, k, .step hview hbound hway⟩
  · refine ⟨[], i, .stop fun v hview => ?_⟩
    exact Option.eq_none_iff_forall_ne_some.2 fun j hbound => h ⟨v, j, hview, hbound⟩

theorem Way.follow_all (h : e.Way i vs k) (good : e.Good) :
    e.follow (e.bindings.length + 1) [] i = .ok k :=
  h.follow_eq good (Nat.lt_succ_of_le h.length_le) (by simp)

theorem Way.resolve_eq (h : e.Way i vs k) (good : e.Good) {outer : Ty}
    (hlook : e.types.lookup? i = some outer) :
    resolve i e =
      if outer.modifier = .default then (k, e) else withModifier k outer.modifier e := by
  unfold resolve
  rw [get_bind_apply, hlook]
  simp only [h.follow_all good]
  split <;> rfl

theorem resolve_eq_of_none (h : e.types.lookup? i = none) : resolve i e = (i, e) := by
  unfold resolve
  rw [get_bind_apply, h]
  rfl

theorem Way.mono (h : e.Way i vs k) (good : e.Good) (hi : e.Over i) (hext : e.Extends e')
    (hend : ∀ v, e.types.view k = .var v → e'.binding? v = none) : e'.Way i vs k := by
  induction h with
  | @stop i =>
    refine .stop fun v hv => hend v ?_
    rwa [← hi.view_eq good.types hext.types]
  | step hview hbound _ ih =>
    have hview' := (hi.view_eq good.types hext.types).trans hview
    exact .step hview' (hext.binding? hbound) (ih (good.bound hbound).isOver hend)

theorem Way.exists_lookup? (h : e.Way i vs k) (good : e.Good) (hi : e.Over i) (h0 : i ≠ 0) :
    ∃ ty, e.types.lookup? k = some ty := by
  obtain hzero | hlook := (h.isOver good hi).eq_zero_or_lookup?
  · exact absurd hzero (h.ne_zero good h0)
  · exact hlook

/-! ## Forms -/

def target (e : Env) (i : TypeId) : TypeId :=
  match e.follow (e.bindings.length + 1) [] i with
  | .ok k => k
  | .error _ => i

theorem Way.target_eq (h : e.Way i vs k) (good : e.Good) : e.target i = k := by
  rw [target, h.follow_all good]

/-- The form of a type with variables replaced by what they stand for, `n` levels deep. -/
def formAt (e : Env) : Nat → TypeId → Form
  | 0, _ => .error
  | n + 1, i =>
    match e.types.lookup? (e.target i) with
    | none => .missing
    | some ty =>
      .node (ty.modifier.under (e.types.describe i).modifier) ty.shape.head
        ((e.types.view (e.target i)).parts.map (formAt e n))

theorem Way.formAt_succ (h : e.Way i vs k) (good : e.Good) {ty : Ty}
    (hlook : e.types.lookup? k = some ty) (n : Nat) :
    e.formAt (n + 1) i = .node (ty.modifier.under (e.types.describe i).modifier) ty.shape.head
      ((e.types.view k).parts.map (e.formAt n)) := by
  rw [formAt, h.target_eq good, hlook]

/-- If variables stand for the same, or if no variable is left in it, the form of a type is the same
later. -/
theorem formAt_extends (good : e.Good) (good' : e'.Good) (hext : e.Extends e') (hi : e.Over i)
    (h : (∀ v, e'.binding? v = e.binding? v) ∨ (e.formAt n i).isSettled = true) :
    e'.formAt n i = e.formAt n i := by
  induction n generalizing i with
  | zero => rfl
  | succ n ih =>
    by_cases h0 : i = 0
    · subst h0
      rfl
    obtain ⟨vs, k, hway⟩ := good.exists_way i
    obtain ⟨ty, hlook⟩ := hway.exists_lookup? good hi h0
    have hform := hway.formAt_succ good hlook n
    -- the way ends where it ended before
    have hend (v : VarId) (hv : e.types.view k = .var v) : e'.binding? v = none := by
      obtain hsame | hsettled := h
      · rw [hsame]
        exact hway.stops hv
      · obtain ⟨m, hvar⟩ := lookup?_of_view_var hv
        cases hlook.symm.trans hvar
        rw [hform, Form.isSettled, Form.all_node] at hsettled
        exact absurd hsettled.1 (by simp [Shape.head, Head.isVar])
    have hway' : e'.Way i vs k := hway.mono good hi hext hend
    have hover : e.Over k := hway.isOver good hi
    have hdescribe : e'.types.describe i = e.types.describe i := by
      obtain hzero | ⟨outer, houter⟩ := hi.eq_zero_or_lookup?
      · exact absurd hzero h0
      · rw [TypeTable.describe, TypeTable.describe, houter, hext.types.lookup? houter]
    rw [hway'.formAt_succ good' (hext.types.lookup? hlook) n, hform,
      hover.view_eq good.types hext.types, hdescribe]
    congr 1
    refine List.map_congr_left fun p hp => ih (hover.part hp) (h.imp_right fun hsettled => ?_)
    rw [hform, Form.isSettled, Form.all_node] at hsettled
    exact hsettled.2 _ (List.mem_map_of_mem hp)

theorem Keeps.formAt_eq (h : e.Keeps e') (good : e.Good) (hi : e.Over i) (n : Nat) :
    e'.formAt n i = e.formAt n i :=
  formAt_extends good h.good h.grows.toExtends hi (.inl h.grows.binding?_eq)

theorem Keeps.formOf_eq (h : e.Keeps e') (good : e.Good) (hi : e.Over i) (σ : VarId → Form) :
    e'.types.formOf σ i = e.types.formOf σ i :=
  good.types.formOf_extends h.good.types h.grows.types (hi.lt_size good.types)

/-! ## Expanding -/

/-- What expanding a type gives: a type of the form that the type has in the environment before. -/
structure Writes (e : Env) (n : Nat) (i j : TypeId) (e' : Env) : Prop extends e.Keeps e' where
  isOver : e'.Over j
  form : e'.types.formOf .var j = e.formAt n i

/-- A type under the same constructor is the result if its parts are written out. -/
theorem Writes.of_parts {ty : Ty} {s : Shape} (good : e.Good) (hlook : e.types.lookup? i = some ty)
    (hvar : ∀ v, e.types.view i ≠ .var v) (hkeeps : e.Keeps e') (hk : e'.Over k)
    (hlookk : e'.types.lookup? k = some ⟨s, ty.modifier⟩) (hhead : s.head = ty.shape.head)
    (hvark : ∀ v, e'.types.view k ≠ .var v)
    (hps : (e'.types.view k).parts.map (e'.types.formOf .var) =
      (e.types.view i).parts.map (e.formAt n)) :
    e.Writes (n + 1) i k e' := by
  have hway : e.Way i [] i := .stop fun v hv => absurd hv (hvar v)
  refine ⟨hkeeps, hk, ?_⟩
  rw [hkeeps.good.types.formOf_of_parts hlookk hvark hps, hway.formAt_succ good hlook, hhead,
    TypeTable.describe, hlook, Option.getD_some, Modifier.under_self]

theorem Writes.of_var {v : VarId} {m : Modifier} (good : e.Good)
    (hlook : e.types.lookup? i = some ⟨.var v, m⟩) (hfree : e.binding? v = none)
    (hkeeps : e.Keeps e')
    (hk : e'.Over k) (hlookk : e'.types.lookup? k = some ⟨.var v, m⟩) :
    e.Writes (n + 1) i k e' := by
  have hview := view_of_var hlook
  have hway : e.Way i [] i := .stop fun w hw => by
    cases hview.symm.trans hw
    exact hfree
  refine ⟨hkeeps, hk, ?_⟩
  rw [formOf_var hlookk, hway.formAt_succ good hlook, TypeTable.describe, hlook,
    Option.getD_some, Modifier.under_self, hview]
  show Form.node (.under .default m) _ _ = _
  rw [Modifier.default_under]
  rfl

end Env

open Env

/-- Following a type gives the end of its way, with the modifier of the type around it. -/
theorem yields_resolve_end (good : e.Good) (hi : e.Over i) (h0 : i ≠ 0) (hway : e.Way i vs k)
    {ty : Ty} (hlook : e.types.lookup? k = some ty) :
    Yields (resolve i) e fun j e' => e.Resolves i j e' ∧
      e'.types.lookup? j = some ⟨ty.shape, ty.modifier.under (e.types.describe i).modifier⟩ := by
  refine ⟨yields_resolve good hi, ?_⟩
  obtain hzero | ⟨outer, houter⟩ := hi.eq_zero_or_lookup?
  · exact absurd hzero h0
  have hdescribe : e.types.describe i = outer := by
    rw [TypeTable.describe, houter, Option.getD_some]
  rw [hway.resolve_eq good houter, hdescribe, Modifier.under]
  split
  · exact hlook
  · have hmade : e.Makes .. := yields_withModifier good hlook outer.modifier
    exact hmade.lookup?

theorem formAt_resolve (good : e.Good) (hi : e.Over i) :
    (resolve i e).2.formAt (n + 1) (resolve i e).1 = e.formAt (n + 1) i := by
  by_cases h0 : i = 0
  · subst h0
    rfl
  obtain ⟨vs, k, hway⟩ := good.exists_way i
  obtain ⟨ty, hlook⟩ := hway.exists_lookup? good hi h0
  obtain ⟨hres, hlookj⟩ := yields_resolve_end good hi h0 hway hlook
  have hover := hway.isOver good hi
  have hview : (resolve i e).2.types.view (resolve i e).1 = e.types.view k := by
    rw [view_congr hlookj (hres.grows.types.lookup? hlook)]
    exact hover.view_eq good.types hres.grows.types
  have hstop : (resolve i e).2.Way (resolve i e).1 [] (resolve i e).1 := .stop fun _ => hres.unbound
  have hdescribe : (resolve i e).2.types.describe (resolve i e).1 =
      ⟨ty.shape, ty.modifier.under (e.types.describe i).modifier⟩ :=
    (congrArg (Option.getD · _) hlookj).trans (Option.getD_some ..)
  rw [hstop.formAt_succ hres.good hlookj, hway.formAt_succ good hlook, hview, hdescribe,
    Modifier.under_self]
  congr 1
  exact List.map_congr_left fun p hp => hres.toKeeps.formAt_eq good (hover.part hp) n

/-- Expanding a type, with variables that stand for nothing left as they are, writes it out. -/
theorem expansion_keep : Expansion keep fun n e => e.Writes n where
  keeps h := ⟨h.toKeeps, h.isOver⟩
  after h hkeeps :=
    ⟨h.toKeeps.trans hkeeps, hkeeps.grows.isOver h.good h.isOver,
      (hkeeps.formOf_eq h.good h.isOver _).trans h.form⟩
  before good hi hkeeps h :=
    ⟨hkeeps.trans h.toKeeps, h.isOver, h.form.trans (hkeeps.formAt_eq good hi _)⟩
  deep hkeeps _ := by
    have herror := hkeeps.good.types.view_error
    have hlook := hkeeps.good.types.lookup?_builtin (k := 0) rfl
    exact ⟨hkeeps, .atom herror, hkeeps.good.types.formOf_of_parts hlook
      (fun v hv => nomatch herror.symm.trans hv) (congrArg (fun w : View => w.parts.map _) herror)⟩
  follow {n e i _ _ _ _} good hi heq h := by
    have hres : e.Resolves i _ _ := yields_resolve good hi
    have hform := formAt_resolve (n := n) good hi
    rw [heq] at hres hform
    exact ⟨hres.toKeeps.trans h.toKeeps, h.isOver, h.form.trans hform⟩
  plain {n e i} good hi hparts hvar := by
    obtain rfl | ⟨ty, hlook⟩ := hi.eq_zero_or_lookup?
    · exact ⟨.refl good, .none, rfl⟩
    · exact .of_parts good hlook hvar (.refl good) hi hlook rfl hvar (by rw [hparts]; rfl)
  wrap good hi hlook hview h hlookk hhead hk := by
    refine .of_parts good hlook (by simp [hview]) h.toKeeps (.wrap hk h.isOver) hlookk hhead
      (by simp [hk]) ?_
    rw [hk, hview]
    exact congrArg ([·]) h.form
  fn {n e e' i k ty s ps ps' r r'} good hi hlook hview hps hr hlookk hk := by
    have hforms : ps'.map (e'.types.formOf .var) = ps.map (e.formAt n) := by
      rw [← List.forall₂_eq_eq_eq, List.forall₂_map_left_iff, List.forall₂_map_right_iff]
      exact hps.flip.imp fun _ _ h => h.form
    have hover : ∀ p' ∈ ps', e'.Over p' := fun p' hp' => by
      obtain ⟨l, hl, rfl⟩ := List.mem_iff_getElem.1 hp'
      exact (hps.get (hps.length_eq ▸ hl) hl).isOver
    refine .of_parts good hlook (by simp [hview]) hr.toKeeps (.fn hk hover hr.isOver) hlookk ?_
      (by simp [hk]) ?_
    · exact (head_of_view_fn hlookk hk).trans (head_of_view_fn hlook hview).symm
    · rw [hk, hview]
      exact congrArg₂ List.cons hr.form hforms
  var {n e i v} good hi hview hfree := by
    obtain ⟨m, hlook⟩ := lookup?_of_view_var hview
    rw [TypeTable.describe, hlook]
    refine (.pure ⟨rfl, rfl⟩ : Yields (keep v i) e fun l e' => l = i ∧ e' = e).bind ?_
    rintro l e2 ⟨rfl, rfl⟩
    split
    · exact .pure (.of_var good hlook hfree (.refl good) hi hlook)
    · refine (yields_withModifier good hlook m).mono fun l' e3 hmade => ?_
      refine .of_var good hlook hfree hmade.toKeeps ?_ hmade.lookup?
      have hl0 : l ≠ 0 := by
        rintro rfl
        cases hlook
      exact (hmade.grows.isOver good hi).of_view_eq
        (view_congr hmade.lookup? (hmade.grows.types.lookup? hlook)) (.inr hl0)

def Env.expandedForm (e : Env) (i : TypeId) : Form :=
  (expand keep i e).2.types.formOf .var (expand keep i e).1

theorem Env.expandedForm_eq (good : e.Good) (hi : e.Over i) :
    e.expandedForm i = e.formAt depthLimit i := by
  have hwrites : e.Writes depthLimit i _ _ := expansion_keep.yields_expandAt good hi
  exact hwrites.form

end UnitCheck.Typing
