import UnitCheck.Proofs.Ty.Form
import UnitCheck.Proofs.Typing.Meaning

/-!
# Computations that change no meaning

Making a type, following a variable, looking for a variable in a type and expanding a type all leave
the variables as they are: the environment only grows (`Env.Grows`). Each has one description here.

* `resolve` returns a type with the same meaning that is no bound variable.
* `occursAt` answers "no" only if the variable is not in the type's meaning.
* `expandAt` returns a type whose term, read without any bindings, is the meaning of the type it was
  given, cut at the depth to which it looks.
-/

namespace UnitCheck.Typing

open List TypeTable

open TypeTable (Admits WellFormed)

variable {e e' : Env} {i j : TypeId}

theorem exists_describe {t : TypeTable} (h : t.view i ≠ .missing) :
    ∃ ty, t.lookup? i = some ty ∧ t.describe i = ty := by
  obtain ⟨ty, hty⟩ := Option.ne_none_iff_exists'.1 fun hnone =>
    h (view_eq_missing_iff.2 hnone)
  refine ⟨ty, hty, ?_⟩
  unfold TypeTable.describe
  rw [hty, Option.getD_some]

/-! ## Making types -/

/-- The environment has grown and stays good. -/
structure Env.Keeps (e e' : Env) : Prop where
  good : e'.Good
  grows : e.Grows e'

namespace Env.Keeps

variable {e'' : Env}

theorem refl (good : e.Good) : e.Keeps e := ⟨good, .refl e⟩

theorem trans (h : e.Keeps e') (h' : e'.Keeps e'') : e.Keeps e'' :=
  ⟨h'.good, h.grows.trans h'.grows⟩

end Env.Keeps

structure Env.Makes (e : Env) (ty : Ty) (i : TypeId) (e' : Env) : Prop extends e.Keeps e' where
  lookup? : e'.types.lookup? i = some ty

variable {ty : Ty} {α : Type} {v : VarId}

theorem yields_onTypes {f : TypeTable → TypeTable × TypeId} (good : e.Good)
    (h : e.types.Made (f e.types).1 (f e.types).2 ty) : Yields (onTypes f) e (e.Makes ty) :=
  ⟨⟨good.withTypes h.wellFormed h.grows, Env.grows_withTypes h.grows⟩, h.lookup?⟩

theorem yields_intern (good : e.Good) (h : e.types.Admits e.types.size ty.shape) :
    Yields (intern ty) e (e.Makes ty) :=
  yields_onTypes good (good.types.intern h)

theorem yields_withModifier (good : e.Good) (h : e.types.lookup? i = some ty)
    (m : Modifier) : Yields (withModifier i m) e (e.Makes ⟨ty.shape, m⟩) :=
  yields_onTypes good (good.types.withModifier h m)

theorem yields_varType (good : e.Good) (v : VarId) :
    Yields (varType v) e (e.Makes (.ofShape (.var v))) := by
  refine yields_onTypes good (good.types.intern ⟨?_, ?_, ?_⟩)
  · exact fun k hk => nomatch hk
  · exact fun p hp => nomatch hp
  · exact fun slot hs => nomatch hs

theorem yields_fnType {params : List TypeId} {result : TypeId} (good : e.Good)
    (h : ∀ p ∈ result :: params, e.Over p) : Yields (fnType params result) e fun i e' =>
      (∃ slot, e.Makes (.ofShape (.fn slot)) i e') ∧ e'.types.view i = .fn params result := by
  obtain ⟨slot, made, hsig⟩ := good.types.fn fun p hp => (h p hp).lt_size good.types
  refine ⟨⟨slot, yields_onTypes good made⟩, ?_⟩
  show (e.types.fn params result).1.view (e.types.fn params result).2 = _
  unfold TypeTable.view
  rw [made.lookup?, hsig]
  rfl

/-! ## Following variables -/

/-- What following a type does: the result means the same from now on, and it is no variable that
stands for something. -/
structure Env.Resolves (e : Env) (i j : TypeId) (e' : Env) : Prop extends e.Keeps e' where
  isOver : e'.Over j
  same : ∀ {f : Env} {u : TypeTerm}, e'.Extends f → (f.Denotes i u ↔ f.Denotes j u)
  unbound : ∀ {v : VarId}, e'.types.view j = .var v → e'.binding? v = none
  zero : j = 0 ↔ i = 0

theorem Env.Resolves.withModifier {k : TypeId} (h : e.Resolves i k e) {m : Modifier} (hk : k ≠ 0) :
    Yields (withModifier k m) e (e.Resolves i) := by
  obtain hzero | ⟨ty, hlook⟩ := h.isOver.eq_zero_or_lookup?
  · exact absurd hzero hk
  · refine (yields_withModifier h.good hlook m).mono fun j e' hmade => ?_
    have hlook' := hmade.grows.types.lookup? hlook
    have hview : e'.types.view j = e'.types.view k := view_congr hmade.lookup? hlook'
    have hj : j ≠ 0 := by
      rintro rfl
      cases hmade.lookup?
    refine ⟨hmade.toKeeps, ?_, ?_, ?_, ?_⟩
    · exact (hmade.grows.isOver h.good h.isOver).of_view_eq hview (.inr hk)
    · intro f u hext
      rw [h.same (hmade.grows.toExtends.trans hext)]
      have hview' : f.types.view j = f.types.view k := by
        rw [hext.types.view_eq hmade.good.types hmade.lookup?,
          hext.types.view_eq hmade.good.types hlook', hview]
      exact ⟨fun hu => hu.of_view_eq hview' hk, fun hu => hu.of_view_eq hview'.symm hj⟩
    · intro v hv
      rw [hmade.grows.binding?_eq]
      refine h.unbound ?_
      rwa [← hmade.grows.types.view_eq h.good.types hlook, ← hview]
    · exact iff_of_false hj (mt h.zero.2 hk)

theorem yields_resolve (good : e.Good) (hi : e.Over i) : Yields (resolve i) e (e.Resolves i) := by
  refine .get_bind ?_
  obtain rfl | ⟨ty, hlook⟩ := hi.eq_zero_or_lookup?
  · refine ⟨.refl good, .none, fun _ => .rfl, fun hv => (nomatch hv), .rfl⟩
  · obtain ⟨u, hu⟩ := good.total hi
    obtain ⟨vs, k, hway⟩ := Env.Way.exists_of_denotes hu
    have hfollow : e.follow (e.bindings.length + 1) [] i = .ok k :=
      hway.follow_eq good (Nat.lt_succ_of_le hway.length_le) (by simp)
    have hi0 : i ≠ 0 := by
      rintro rfl
      cases hlook
    have hresolves : e.Resolves i k e :=
      ⟨.refl good, hway.isOver good hi, hway.denotes_iff good hi, hway.stops,
        iff_of_false (hway.ne_zero good hi0) hi0⟩
    simp only [hlook, hfollow]
    split
    · exact hresolves
    · exact hresolves.withModifier (hway.ne_zero good hi0)

theorem Env.Resolves.denotes_iff (h : e.Resolves i j e') (good : e.Good) (hi : e.Over i)
    {u : TypeTerm} : e.Denotes i u ↔ e'.Denotes j u := by
  rw [← h.same (.refl e'), h.grows.denotes_iff good hi]

/-! ## Looking for a variable -/

theorem get_bind_apply (f : Env → Solve α) (e : Env) : (get >>= f) e = f e e := rfl

theorem bind_apply_of_eq {β : Type} {x : Solve α} {f : α → Solve β} {e e' : Env} {a : α}
    (h : x e = (a, e')) : (x >>= f) e = f a e' := by
  show f (x e).1 (x e).2 = _
  rw [h]

theorem occursAt_succ (v : VarId) (depth : Nat) (i : TypeId) :
    occursAt v (depth + 1) i = do
      let i ← resolve i
      match (← get).types.view i with
      | .var w => return w = v
      | .wrap _ elem => occursAt v depth elem
      | .fn ps r => if ← anyType (occursAt v depth) ps then return true else occursAt v depth r
      | _ => return false := by
  refine bind_congr fun j => funext fun e => ?_
  simp only [describe, bind_assoc, pure_bind, get_bind_apply]
  unfold TypeTable.describe TypeTable.view
  cases hlook : e.types.lookup? j with
  | none => rfl
  | some ty =>
    obtain ⟨s, m⟩ := ty
    cases s with
    | fn slot =>
      simp only [Option.getD_some, get_bind_apply]
      cases e.types.signature? j <;> rfl
    | plain | int | uint | float | array | reference | pointer | optional | named | var => rfl

/-- The variable is not in the meaning of the type. -/
def Env.Avoids (e : Env) (v : VarId) (i : TypeId) : Prop :=
  ∀ u, e.Denotes i u → u.Leaves (· ≠ .var v)

theorem Env.Grows.avoids_iff (h : e.Grows e') (good : e.Good) (hi : e.Over i) :
    e'.Avoids v i ↔ e.Avoids v i :=
  forall_congr' fun _ => imp_congr_left (h.denotes_iff good hi)

theorem yields_anyType {f : TypeId → Solve Bool} (hf : ∀ {i : TypeId} {e : Env}, e.Good → e.Over i →
      Yields (f i) e fun b e' => e.Keeps e' ∧ (b = false → e.Avoids v i))
    {is : List TypeId} (good : e.Good) (his : ∀ i ∈ is, e.Over i) :
    Yields (anyType f is) e fun b e' => e.Keeps e' ∧ (b = false → ∀ i ∈ is, e.Avoids v i) := by
  induction is generalizing e with
  | nil => exact ⟨.refl good, fun _ => by simp⟩
  | cons i is ih =>
    obtain ⟨hi, his⟩ := forall_mem_cons.1 his
    refine (hf good hi).bind fun b e1 ⟨hkeeps, hb⟩ => ?_
    cases b with
    | true => exact ⟨hkeeps, fun h => nomatch h⟩
    | false =>
      refine (ih hkeeps.good fun j hj => hkeeps.grows.isOver good (his j hj)).mono ?_
      rintro b' e' ⟨hkeeps', hb'⟩
      refine ⟨hkeeps.trans hkeeps', fun h => forall_mem_cons.2 ⟨hb rfl, fun j hj => ?_⟩⟩
      exact (hkeeps.grows.avoids_iff good (his j hj)).1 (hb' h j hj)

theorem yields_occursAt (v : VarId) (depth : Nat) (good : e.Good) (hi : e.Over i) :
    Yields (occursAt v depth i) e fun b e' => e.Keeps e' ∧ (b = false → e.Avoids v i) := by
  induction depth generalizing e i with
  | zero => exact ⟨.refl good, fun h => nomatch h⟩
  | succ depth ih =>
    rw [occursAt_succ]
    refine (yields_resolve good hi).bind fun j e1 hres => .get_bind ?_
    -- what is known about the type at the end of the way holds of the type itself
    have hdone {b : Bool} {e' : Env} (hkeeps : e1.Keeps e') (h : b = false → e1.Avoids v j) :
        e.Keeps e' ∧ (b = false → e.Avoids v i) :=
      ⟨hres.toKeeps.trans hkeeps, fun hb u hu => h hb u ((hres.denotes_iff good hi).1 hu)⟩
    cases hview : e1.types.view j with
    | missing =>
      refine hdone (.refl hres.good) fun _ u hu => ?_
      cases hu with
      | missing => exact .missing nofun
      | atom h | wrap h | fn h | free h | bound h => cases h.symm.trans hview
    | atom a =>
      refine hdone (.refl hres.good) fun _ u hu => ?_
      cases hu.functional (.atom hview)
      exact .atom nofun
    | wrap w elem =>
      refine (ih hres.good (hres.isOver.elem hview)).mono fun b e' ⟨hkeeps, hb⟩ => ?_
      refine hdone hkeeps fun h u hu => ?_
      obtain ⟨u', rfl, hu'⟩ := hu.of_wrap hview
      exact .wrap (hb h u' hu')
    | fn ps r =>
      obtain ⟨hps, hr⟩ := hres.isOver.signature hview
      refine (yields_anyType ih hres.good hps).bind fun b e2 ⟨hkeeps, hb⟩ => ?_
      cases b with
      | true => exact hdone hkeeps fun h => nomatch h
      | false =>
        refine (ih hkeeps.good (hkeeps.grows.isOver hres.good hr)).mono
          fun b' e' ⟨hkeeps', hb'⟩ => ?_
        refine hdone (hkeeps.trans hkeeps') fun h u hu => ?_
        have hr' := (hkeeps.grows.avoids_iff hres.good hr).1 (hb' h)
        obtain ⟨us, w, rfl, hlen, hw, hus⟩ := hu.of_fn hview
        refine .fn (fun q hq => ?_) (hr' _ hw)
        obtain ⟨k, hk, rfl⟩ := mem_iff_getElem.1 hq
        have hp : ps[k]? = some ps[k] := List.getElem?_eq_getElem (hlen ▸ hk)
        exact hb rfl _ (mem_of_getElem? hp) _ (hus k _ _ hp (List.getElem?_eq_getElem hk))
    | var w =>
      refine hdone (.refl hres.good) fun h u hu => ?_
      cases hu.functional (.free hview (hres.unbound hview))
      have hne : decide (w = v) = false := h
      exact .var fun heq => of_decide_eq_false hne (TypeTerm.var.inj heq)

/-! ## Expanding types -/

/-- Expanding a type, by its view. -/
theorem expandAt_succ (leaf : VarId → TypeId → Solve TypeId) (depth : Nat) (i : TypeId) :
    expandAt leaf (depth + 1) i = do
      let i ← resolve i
      let e ← get
      match e.types.view i with
      | .wrap _ elem => do
        let elem' ← expandAt leaf depth elem
        if elem' = elem then return i
        else intern ⟨(e.types.describe i).shape.withElem elem', (e.types.describe i).modifier⟩
      | .fn ps r => do
        let params ← mapTypes (expandAt leaf depth) ps
        let result ← expandAt leaf depth r
        if params = ps ∧ result = r then return i
        else withModifier (← fnType params result) (e.types.describe i).modifier
      | .var v => do
        let j ← leaf v i
        if (e.types.describe i).modifier = .default then return j
        else withModifier j (e.types.describe i).modifier
      | _ => return i := by
  refine bind_congr fun j => funext fun e => ?_
  simp only [get_bind_apply]
  unfold TypeTable.describe TypeTable.view
  cases hlook : e.types.lookup? j with
  | none => rfl
  | some ty =>
    obtain ⟨s, m⟩ := ty
    cases s with
    | fn slot =>
      simp only [get_bind_apply]
      cases e.types.signature? j <;> rfl
    | plain | int | uint | float | array | reference | pointer | optional | named | var => rfl

theorem yields_report (good : e.Good) {f : Fault} (hf : ¬ f.IsCycle)
    (hcode : f.code ≠ .unresolvedType) :
    Yields (report f) e fun _ e' => e.Keeps e' ∧ e'.faults ≠ #[] := by
  show e.Keeps { e with faults := e.faults.push f } ∧ e.faults.push f ≠ #[]
  refine ⟨⟨good.congr rfl .refl rfl rfl fun g hg => ?_, .refl _, rfl, rfl, rfl, .refl _, by simp,
    fun h => ?_⟩, by simp⟩
  · obtain hg | rfl : g ∈ e.faults.toList ∨ g = f := by simpa using hg
    · exact good.faults g hg
    · exact hf
  · refine ⟨h.nodup, h.le_count, ?_⟩
    rw [Array.toList_push, filter_append, filter_cons_of_neg (by simpa using hcode),
      filter_nil, append_nil]
    exact h.reports

/-- A report about nesting is none about a circle: the messages start differently. -/
theorem not_isCycle_nested (span : Span) (i rest : Text) :
    ¬ (Fault.internal span ("type " ++ i ++ rest)).IsCycle := by
  rintro ⟨-, rest', hmessage⟩
  have hbytes := congrArg (fun t : Text => t.bytes.head?) hmessage
  cases hbytes

/-- A relation between a type, before, and what it is expanded to, behind, that every step of
expanding makes true. -/
structure Expansion (leaf : VarId → TypeId → Solve TypeId)
    (W : Nat → Env → TypeId → TypeId → Env → Prop) : Prop where
  keeps {n e i j e'} : W n e i j e' → e.Keeps e' ∧ e'.Over j
  after {n e i j e' e''} : W n e i j e' → e'.Keeps e'' → W n e i j e''
  before {n} {e e' : Env} {i j e''} : e.Good → e.Over i → e.Keeps e' → W n e' i j e'' →
    W n e i j e''
  deep {e e' : Env} {i} : e.Keeps e' → e'.faults ≠ #[] → W 0 e i Builtin.error e'
  follow {n} {e : Env} {i j e' k e''} : e.Good → e.Over i → resolve i e = (j, e') →
    W (n + 1) e' j k e'' → W (n + 1) e i k e''
  plain {n} {e : Env} {i} : e.Good → e.Over i → (e.types.view i).parts = [] →
    (∀ v, e.types.view i ≠ .var v) → W (n + 1) e i i e
  wrap {n} {e e' : Env} {i k ty s w elem elem'} : e.Good → e.Over i → e.types.lookup? i = some ty →
    e.types.view i = .wrap w elem → W n e elem elem' e' →
    e'.types.lookup? k = some ⟨s, ty.modifier⟩ → s.head = ty.shape.head →
    e'.types.view k = .wrap w elem' → W (n + 1) e i k e'
  fn {n} {e e' : Env} {i k ty s ps ps' r r'} : e.Good → e.Over i → e.types.lookup? i = some ty →
    e.types.view i = .fn ps r → List.Forall₂ (fun p p' => W n e p p' e') ps ps' → W n e r r' e' →
    e'.types.lookup? k = some ⟨s, ty.modifier⟩ → e'.types.view k = .fn ps' r' → W (n + 1) e i k e'
  var {n} {e : Env} {i v} : e.Good → e.Over i → e.types.view i = .var v → e.binding? v = none →
    Yields (do
      let j ← leaf v i
      if (e.types.describe i).modifier = .default then return j
      else withModifier j (e.types.describe i).modifier) e (W (n + 1) e i)

namespace Expansion

variable {leaf : VarId → TypeId → Solve TypeId} {W : Nat → Env → TypeId → TypeId → Env → Prop}
    {n : Nat}

theorem yields_mapTypes (hW : Expansion leaf W)
    (h : ∀ {e : Env} {i : TypeId}, e.Good → e.Over i → Yields (expandAt leaf n i) e (W n e i))
    {is : List TypeId} (good : e.Good) (his : ∀ i ∈ is, e.Over i) :
    Yields (mapTypes (expandAt leaf n) is) e fun js e' =>
      e.Keeps e' ∧ List.Forall₂ (fun i j => W n e i j e') is js := by
  induction is generalizing e with
  | nil => exact ⟨.refl good, .nil⟩
  | cons i is ih =>
    obtain ⟨hi, his⟩ := forall_mem_cons.1 his
    refine (h good hi).bind fun j e1 hexp => ?_
    have hkeeps := (hW.keeps hexp).1
    refine (ih hkeeps.good fun i hmem => hkeeps.grows.isOver good (his i hmem)).bind ?_
    rintro js e2 ⟨hkeeps', hall⟩
    refine .pure ⟨hkeeps.trans hkeeps', .cons (hW.after hexp hkeeps') ?_⟩
    exact ((forall₂_and_left is js).2 ⟨his, hall⟩).imp fun i j h => hW.before good h.1 hkeeps h.2

theorem yields_expandAt (hW : Expansion leaf W) (good : e.Good) (hi : e.Over i) :
    Yields (expandAt leaf n i) e (W n e i) := by
  induction n generalizing e i with
  | zero =>
    have hreport : FaultCode.internalError ≠ .unresolvedType := by decide
    refine (yields_report good (not_isCycle_nested _ _ _) hreport).bind ?_
    exact fun _ e' ⟨hkeeps, hfaults⟩ => .pure (hW.deep hkeeps hfaults)
  | succ n ih =>
    rw [expandAt_succ]
    have hresolve : Yields (resolve i) e fun j e' => e.Resolves i j e' ∧ resolve i e = (j, e') :=
      ⟨yields_resolve good hi, rfl⟩
    refine hresolve.bind fun j e1 ⟨hres, heq⟩ => .get_bind ?_
    -- it is enough to expand the type at the end of the way
    suffices hgoal : Yields _ e1 (W (n + 1) e1 j) from
      hgoal.mono fun k e' hexp => hW.follow good hi heq hexp
    cases hview : e1.types.view j with
    | missing | atom =>
      exact .pure (hW.plain hres.good hres.isOver (by rw [hview]; rfl) (by simp [hview]))
    | wrap w elem =>
      obtain ⟨ty, hlook, hdescribe⟩ := exists_describe (hview.trans_ne View.noConfusion)
      refine (ih hres.good (hres.isOver.elem hview)).bind fun elem' e2 hexp => ?_
      obtain ⟨hkeeps, hover⟩ := hW.keeps hexp
      have hlook2 := hkeeps.grows.types.lookup? hlook
      have hview2 := (hkeeps.grows.types.view_eq hres.good.types hlook).trans hview
      split
      next heq =>
        subst heq
        exact .pure (hW.wrap hres.good hres.isOver hlook hview hexp hlook2 rfl hview2)
      next =>
        rw [hdescribe]
        refine (yields_intern hkeeps.good (admits_withElem hlook2 hview2
          (hover.lt_size hkeeps.good.types))).mono fun k e3 hmade => ?_
        exact hW.wrap hres.good hres.isOver hlook hview (hW.after hexp hmade.toKeeps) hmade.lookup?
          (Shape.head_withElem _ _) (view_withElem hlook2 hview2 hmade.lookup?)
    | fn ps r =>
      obtain ⟨ty, hlook, hdescribe⟩ := exists_describe (hview.trans_ne View.noConfusion)
      obtain ⟨hps, hr⟩ := hres.isOver.signature hview
      refine (hW.yields_mapTypes ih hres.good hps).bind fun ps' e2 ⟨hkeeps, hps'⟩ => ?_
      refine (ih hkeeps.good (hkeeps.grows.isOver hres.good hr)).bind fun r' e3 hexp => ?_
      have hps3 := hps'.imp fun _ _ h => hW.after h (hW.keeps hexp).1
      have hr3 := hW.before hres.good hr hkeeps hexp
      have hkeeps3 := (hW.keeps hr3).1
      split
      next heq =>
        obtain ⟨rfl, rfl⟩ := heq
        exact .pure (hW.fn hres.good hres.isOver hlook hview hps3 hr3
          (hkeeps3.grows.types.lookup? hlook)
          ((hres.isOver.view_eq hres.good.types hkeeps3.grows.types).trans hview))
      next =>
        rw [hdescribe]
        have hover : ∀ p ∈ r' :: ps', e3.Over p := by
          refine forall_mem_cons.2 ⟨(hW.keeps hr3).2, fun p hp => ?_⟩
          obtain ⟨k, hk, rfl⟩ := mem_iff_getElem.1 hp
          exact (hW.keeps (hps3.get (hps3.length_eq ▸ hk) hk)).2
        refine (yields_fnType hkeeps3.good hover).bind fun k e4 ⟨⟨slot, hmade⟩, hk⟩ => ?_
        refine (yields_withModifier hmade.good hmade.lookup? _).mono fun k' e5 hmade' => ?_
        have hkeeps5 := hmade.toKeeps.trans hmade'.toKeeps
        refine hW.fn hres.good hres.isOver hlook hview (hps3.imp fun _ _ h => hW.after h hkeeps5)
          (hW.after hr3 hkeeps5) hmade'.lookup? ?_
        rw [view_congr hmade'.lookup? (hmade'.grows.types.lookup? hmade.lookup?),
          hmade'.grows.types.view_eq hmade.good.types hmade.lookup?, hk]
    | var v => exact hW.var hres.good hres.isOver hview (hres.unbound hview)

end Expansion

/-- What expanding a type does: the term of the result, as the table has it, is the meaning of the
type with its variables filled in, as far as `depth` reaches. -/
structure Env.Expands (R : Env → VarId → TypeTerm → Prop) (depth : Nat) (e : Env) (i j : TypeId)
    (e' : Env) : Prop extends e.Keeps e' where
  isOver : e'.Over j
  reading : ∀ {u : TypeTerm}, e.Denotes i u →
    ∃ u', e'.types.Reads j u' ∧ TypeTerm.Fills (e'.faults ≠ #[]) (R e') depth u u'

/-- What is asked of the choice for variables that stand for nothing: that it gives a type of the
table whose term is one of those that `R` allows. -/
structure Fillable (R : Env → VarId → TypeTerm → Prop) (leaf : VarId → TypeId → Solve TypeId) :
    Prop where
  mono : ∀ {e e' : Env} {v : VarId} {u : TypeTerm}, e.Keeps e' → R e v u → R e' v u
  leaf : ∀ {e : Env} {v : VarId} {i : TypeId}, e.Good → e.Over i → e.types.view i = .var v →
    e.binding? v = none → Yields (leaf v i) e fun j e' =>
      e.Keeps e' ∧ j ≠ 0 ∧ e'.Over j ∧ ∃ u, e'.types.Reads j u ∧ R e' v u

section Expand

variable {R : Env → VarId → TypeTerm → Prop} {leaf : VarId → TypeId → Solve TypeId} {depth : Nat}

theorem Env.Extends.faults_eq (h : e.Extends e') (hnone : e'.faults = #[]) : e.faults = #[] := by
  have hfaults := h.faults
  rw [hnone] at hfaults
  exact Array.toList_eq_nil_iff.1 (prefix_nil.1 hfaults)

theorem Env.Expands.after (hR : Fillable R leaf) {e'' : Env} (h : e.Expands R depth i j e')
    (h' : e'.Keeps e'') : e.Expands R depth i j e'' where
  toKeeps := h.toKeeps.trans h'
  isOver := h'.grows.isOver h.good h.isOver
  reading hu := by
    obtain ⟨u', hread, hfills⟩ := h.reading hu
    exact ⟨u', hread.mono h.good.types h'.grows.types,
      hfills.mono (mt h'.grows.toExtends.faults_eq) fun v w => hR.mono h'⟩

variable {k : TypeId}

theorem Env.Expands.of_view_eq (h : e.Expands R depth i j e') (hj : j ≠ 0)
    (hview : e'.types.view k = e'.types.view j) : e.Expands R depth i k e' where
  toKeeps := h.toKeeps
  isOver := h.isOver.of_view_eq hview (.inr hj)
  reading hu := by
    obtain ⟨u', hread, hfills⟩ := h.reading hu
    exact ⟨u', hread.of_view_eq hview hj, hfills⟩

theorem Env.Expands.fn {r r' : TypeId} {ps ps' : List TypeId}
    (hps : List.Forall₂ (fun p p' => e.Expands R depth p p' e') ps ps')
    (hr : e.Expands R depth r r' e') (hview : e.types.view i = .fn ps r)
    (hk : e'.types.view k = .fn ps' r') : e.Expands R (depth + 1) i k e' where
  toKeeps := hr.toKeeps
  isOver := by
    refine .fn hk (fun p' hp' => ?_) hr.isOver
    obtain ⟨n, hn, rfl⟩ := mem_iff_getElem.1 hp'
    exact (hps.get (hps.length_eq ▸ hn) hn).isOver
  reading hu := by
    have hlen := hps.length_eq
    obtain ⟨us, w, rfl, hlenu, hw, hus⟩ := hu.of_fn hview
    obtain ⟨w', hread, hfills⟩ := hr.reading hw
    -- each parameter's term fills the term of the parameter at the same place
    obtain ⟨us', hlenu', hus'⟩ := Denotes.exists_terms
        fun n p' (hp' : ps'[n]? = some p') => by
      obtain ⟨hn, heq⟩ := List.getElem?_eq_some_iff.1 hp'
      have hq := List.getElem?_eq_getElem (by omega : n < us.length)
      have hexp := hps.get (by omega) hn
      rw [get_eq_getElem, get_eq_getElem, heq] at hexp
      obtain ⟨q', hread', hfills'⟩ :=
        hexp.reading (hus n _ _ (List.getElem?_eq_getElem (by omega)) hq)
      exact (⟨q', hread', fun q hq' => by cases hq.symm.trans hq'; exact hfills'⟩ :
        ∃ q', e'.types.Reads p' q' ∧ ∀ q, us[n]? = some q → TypeTerm.Fills _ (R e') depth q q')
    refine ⟨.fn us' w', .fn hk hlenu' (fun n p q hp hq => (hus' n p q hp hq).1) hread, ?_⟩
    refine .fn (by omega) (fun n q q' hq hq' => ?_) hfills
    have hn : n < us.length := (List.getElem?_eq_some_iff.1 hq).1
    have hp' := List.getElem?_eq_getElem (by omega : n < ps'.length)
    exact (hus' n _ _ hp' hq').2 q hq

theorem Fillable.expansion (hR : Fillable R leaf) : Expansion leaf fun n e => e.Expands R n where
  keeps h := ⟨h.toKeeps, h.isOver⟩
  after h := h.after hR
  before good hi hkeeps h :=
    ⟨hkeeps.trans h.toKeeps, h.isOver,
      fun hu => h.reading ((hkeeps.grows.denotes_iff good hi).2 hu)⟩
  deep hkeeps hfaults := by
    have herror := hkeeps.good.types.view_error
    exact ⟨hkeeps, .atom herror, fun _ => ⟨_, .atom herror, .deep hfaults⟩⟩
  follow {_ e i _ _ _ _} good hi heq hexp := by
    have hres : e.Resolves i _ _ := yields_resolve good hi
    rw [heq] at hres
    exact ⟨hres.toKeeps.trans hexp.toKeeps, hexp.isOver,
      fun hu => hexp.reading ((hres.denotes_iff good hi).1 hu)⟩
  plain good hi hparts hvar := by
    refine ⟨.refl good, hi, fun hu => ?_⟩
    cases hu with
    | missing => exact ⟨_, .missing, .missing⟩
    | atom hview => exact ⟨_, .atom hview, .atom⟩
    | free hview | bound hview => exact absurd hview (hvar _)
    | wrap hview | fn hview =>
      rw [hview] at hparts
      cases hparts
  wrap _ _ _ hview h _ _ hk := by
    refine ⟨h.toKeeps, .wrap hk h.isOver, fun hu => ?_⟩
    obtain ⟨u, rfl, hu'⟩ := hu.of_wrap hview
    obtain ⟨u', hread, hfills⟩ := h.reading hu'
    exact ⟨_, .wrap hk hread, .wrap hfills⟩
  fn _ _ _ hview hps hr _ hk := .fn hps hr hview hk
  var {n e i v} good hi hview hfree := by
    refine (hR.leaf good hi hview hfree).bind ?_
    rintro k e2 ⟨hkeeps, hk, hover, u', hread, hfill⟩
    have hexp : e.Expands R (n + 1) i k e2 := by
      refine ⟨hkeeps, hover, fun hu => ?_⟩
      cases hu.functional (.free hview hfree)
      exact ⟨u', hread, .var hfill⟩
    split
    · exact .pure hexp
    · obtain hzero | ⟨ty, hlook⟩ := hover.eq_zero_or_lookup?
      · exact absurd hzero hk
      · refine (yields_withModifier hkeeps.good hlook _).mono fun k' e3 hmade => ?_
        refine (hexp.after hR hmade.toKeeps).of_view_eq hk ?_
        exact view_congr hmade.lookup? (hmade.grows.types.lookup? hlook)

end Expand

end UnitCheck.Typing
