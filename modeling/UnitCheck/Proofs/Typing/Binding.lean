import UnitCheck.Proofs.Typing.Solve
import UnitCheck.Proofs.Typing.Verdict

/-!
# Letting a variable stand for a type

The one way in which meanings change during inference is that a variable which stood for nothing is
given something to stand for. `Env.Good.assign` shows that this keeps the environment good if the
variable is not in the meaning of its new type, and `Env.all_assigned` that it spreads no leaf which
was not in one of the two types before.

What a successful unification leaves behind is a relation between two meanings that holds now and in
every later environment (`Env.Later`), so by its definition nothing that happens later takes it
away. Types `Agree` if they are compatible from now on. `yields_bind` is the case of a variable:
whichever of the two is made to stand for the other, both mean the same from then on.
-/

namespace UnitCheck.Typing

open List TypeTable

variable {e e' e'' : Env} {i j a b : TypeId} {v w : VarId} {u : TypeTerm} {P : TypeTerm → Prop}
  {s : Shape} {R : TypeTerm → TypeTerm → Prop}

namespace Env

def All (e : Env) (P : TypeTerm → Prop) (i : TypeId) : Prop := ∀ u, e.Denotes i u → u.Leaves P

/-- The meanings of the two types are related in this environment and in every later one. -/
def Later (e : Env) (R : TypeTerm → TypeTerm → Prop) (a b : TypeId) : Prop :=
  ∀ ⦃f : Env⦄, e.Extends f → ∀ ⦃u w : TypeTerm⦄, f.Denotes a u → f.Denotes b w → R u w

def Agree (e : Env) (a b : TypeId) : Prop := e.Later (Compatible TypeTerm.isAbsorbing) a b

theorem Later.mono (h : e.Later R a b) (hext : e.Extends e') : e'.Later R a b :=
  fun _ hf _ _ hu hw => h (hext.trans hf) hu hw

theorem Later.imp {R' : TypeTerm → TypeTerm → Prop} (h : e.Later R a b)
    (hR : ∀ u w, R u w → R' u w) : e.Later R' a b :=
  fun _ hf _ _ hu hw => hR _ _ (h hf hu hw)

theorem Later.symm (h : e.Later Eq a b) : e.Later Eq b a :=
  fun _ hf _ _ hu hw => (h hf hw hu).symm

theorem Grows.all_iff (h : e.Grows e') (good : e.Good) (hi : e.Over i) : e'.All P i ↔ e.All P i :=
  forall_congr' fun _ => imp_congr_left (h.denotes_iff good hi)

theorem denotes_of_view_eq (good : e.Good) (ha : e.Over a) (hb : e.Over b) (hb0 : b ≠ 0)
    (hview : e.types.view a = e.types.view b) (hext : e.Extends e') (hu : e'.Denotes b u) :
    e'.Denotes a u := by
  refine hu.of_view_eq ?_ hb0
  rw [ha.view_eq good.types hext.types, hb.view_eq good.types hext.types, hview]

theorem later_eq_of_view_eq (good : e.Good) (ha : e.Over a) (hb : e.Over b) (hb0 : b ≠ 0)
    (hview : e.types.view a = e.types.view b) : e.Later Eq a b :=
  fun _ hext _ _ hu hw => hu.functional (denotes_of_view_eq good ha hb hb0 hview hext hw)

theorem later_of_atom_left {x : Atom} (good : e.Good) (ha : e.Over a)
    (hva : e.types.view a = .atom x) (h : ∀ w, R (.atom x) w) : e.Later R a b := by
  intro f hf u w hu _
  rw [hu.functional (.atom ((ha.view_eq good.types hf.types).trans hva))]
  exact h w

theorem later_of_atom_right {x : Atom} (good : e.Good) (hb : e.Over b)
    (hvb : e.types.view b = .atom x) (h : ∀ u, R u (.atom x)) : e.Later R a b := by
  intro f hf u w _ hw
  rw [hw.functional (.atom ((hb.view_eq good.types hf.types).trans hvb))]
  exact h u

/-! ## Bindings -/

def assigned (e : Env) (v : VarId) (j : TypeId) : Env := { e with bindings := (v, j) :: e.bindings }

theorem binding?_assigned_self : (e.assigned v j).binding? v = some j := by
  simp [binding?, assigned]

theorem binding?_assigned_of_ne (h : w ≠ v) : (e.assigned v j).binding? w = e.binding? w := by
  simp only [binding?, assigned, lookup_cons, beq_eq_false_iff_ne.2 h]

theorem extends_assigned (h : e.binding? v = none) : e.Extends (e.assigned v j) where
  types := .refl _
  count := .refl
  binding? {w k} hw := by
    have hne : w ≠ v := by
      rintro rfl
      cases h.symm.trans hw
    rw [binding?_assigned_of_ne hne, hw]
  literal? hw := ⟨_, hw, .refl⟩
  faults := prefix_rfl
  once hw := ⟨hw.nodup, hw.le_count, hw.reports⟩

theorem denotes_assigned_of_leaves (h : e.binding? v = none) (hu : e.Denotes i u)
    (hleaves : u.Leaves (· ≠ .var v)) : (e.assigned v j).Denotes i u := by
  induction hu with
  | missing => exact .missing
  | atom h => exact .atom h
  | wrap h _ ih => cases hleaves with | wrap hl => exact .wrap h (ih hl)
  | fn h hlen _ _ ihps ihr =>
    cases hleaves with
    | fn hlps hlr =>
      exact .fn h hlen (fun k p q hp hq => ihps k p q hp hq (hlps q (mem_of_getElem? hq)))
        (ihr hlr)
  | @free i w h hfree =>
    cases hleaves with
    | var hne =>
      have hne : w ≠ v := fun heq => hne (by rw [heq])
      exact .free h ((binding?_assigned_of_ne hne).trans hfree)
  | bound h hbound _ ih => exact .bound h ((extends_assigned ‹_›).binding? hbound) (ih hleaves)

/-- Every type keeps a meaning: that of the new type takes the place of the variable. -/
theorem exists_denotes_assigned {uj : TypeTerm} (h : e.binding? v = none)
    (huj : (e.assigned v j).Denotes j uj) (hu : e.Denotes i u) :
    ∃ u', (e.assigned v j).Denotes i u' ∧
      ∀ {P : TypeTerm → Prop}, u.Leaves P → uj.Leaves P → u'.Leaves P := by
  induction hu with
  | missing => exact ⟨_, .missing, fun hP _ => hP⟩
  | atom h => exact ⟨_, .atom h, fun hP _ => hP⟩
  | wrap h _ ih =>
    obtain ⟨u', hu', hleaves⟩ := ih
    refine ⟨_, .wrap h hu', fun hP hj => ?_⟩
    cases hP with | wrap hP => exact .wrap (hleaves hP hj)
  | @fn i r ps us w hview hlen _ _ ihps ihr =>
    obtain ⟨w', hw', hleavesr⟩ := ihr
    obtain ⟨us', hlen', hus'⟩ := Denotes.exists_terms
      (S := fun k p q' => (e.assigned v j).Denotes p q' ∧ ∀ q, us[k]? = some q →
        ∀ {P : TypeTerm → Prop}, q.Leaves P → uj.Leaves P → q'.Leaves P)
      fun k p hp => by
        have hq := List.getElem?_eq_getElem (hlen ▸ (List.getElem?_eq_some_iff.1 hp).1 :
          k < us.length)
        obtain ⟨q', hq', hleaves⟩ := ihps k p _ hp hq
        exact ⟨q', hq', fun q heq => by cases hq.symm.trans heq; exact hleaves⟩
    refine ⟨_, .fn hview hlen' (fun k p q hp hq => (hus' k p q hp hq).1) hw', fun hP hj => ?_⟩
    cases hP with
    | fn hPps hPr =>
      refine .fn (fun q' hq' => ?_) (hleavesr hPr hj)
      obtain ⟨k, hk, rfl⟩ := mem_iff_getElem.1 hq'
      have hp := List.getElem?_eq_getElem (hlen' ▸ hk : k < ps.length)
      have hq := List.getElem?_eq_getElem (by omega : k < us.length)
      exact (hus' k _ _ hp (List.getElem?_eq_getElem hk)).2 _ hq (hPps _ (mem_of_getElem? hq)) hj
  | @free i w hview hfree =>
    by_cases heq : w = v
    · subst heq
      exact ⟨uj, .bound hview binding?_assigned_self huj, fun _ hj => hj⟩
    · exact ⟨_, .free hview ((binding?_assigned_of_ne heq).trans hfree), fun hP _ => hP⟩
  | bound hview hbound _ ih =>
    obtain ⟨u', hu', hleaves⟩ := ih
    exact ⟨u', .bound hview ((extends_assigned h).binding? hbound) hu', hleaves⟩

/-- Letting a variable stand for a type in whose meaning it is not keeps an environment good. -/
theorem Good.assign (good : e.Good) (hvalid : v.isValid) (hle : v.index ≤ e.count)
    (hfree : e.binding? v = none) (hlook : e.types.lookup? j = some (.ofShape s))
    (hover : e.Over j) (havoid : e.Avoids v j)
    (hlit : ∀ k, e.literal? v = some k → e.LiteralTarget k j) : (e.assigned v j).Good := by
  have hj : j ≠ 0 := by
    rintro rfl
    cases hlook
  obtain ⟨uj, huj⟩ := good.total hover
  have huj' := denotes_assigned_of_leaves (j := j) hfree huj (havoid uj huj)
  have hext : e.Extends (e.assigned v j) := extends_assigned hfree
  have hnodup : ((e.assigned v j).bindings.map Prod.fst).Nodup := by
    refine nodup_cons.2 ⟨fun hmem => ?_, good.nodup⟩
    obtain ⟨b, hb, heq⟩ := mem_map.1 hmem
    have hne := lookup_eq_none_iff.1 hfree b hb
    simp [heq] at hne
  refine ⟨good.types, fun {w k} hw => ?_, fun {w k} hw => ?_, hnodup, good.faults⟩
  · by_cases heq : w = v
    · subst heq
      rw [binding?_assigned_self] at hw
      cases hw
      exact ⟨hvalid, hle, hj, hover, ⟨s, hlook⟩, uj, huj'⟩
    · rw [binding?_assigned_of_ne heq] at hw
      obtain ⟨hvalidw, hlew, hk, hoverk, hplain, uk, huk⟩ := good.bound hw
      obtain ⟨uk', huk', -⟩ := exists_denotes_assigned hfree huj' huk
      exact ⟨hvalidw, hlew, hk, hoverk, hplain, uk', huk'⟩
  · obtain ⟨hvalidw, hlew, huntyped, htarget⟩ := good.literal hw
    refine ⟨hvalidw, hlew, huntyped, fun {k'} hk' => ?_⟩
    by_cases heq : w = v
    · subst heq
      rw [binding?_assigned_self] at hk'
      cases hk'
      exact (hlit k hw).mono good hext
    · rw [binding?_assigned_of_ne heq] at hk'
      exact (htarget hk').mono good hext

/-- The new binding brings only leaves of the type it is to. -/
theorem all_assigned (good : e.Good) (hfree : e.binding? v = none)
    (hover : e.Over j) (havoid : e.Avoids v j) (hj : e.All P j) (hiover : e.Over i)
    (hi : e.All P i) : (e.assigned v j).All P i := by
  obtain ⟨uj, huj⟩ := good.total hover
  obtain ⟨u, hu⟩ := good.total hiover
  have huj' := denotes_assigned_of_leaves (j := j) hfree huj (havoid uj huj)
  obtain ⟨u', hu', hleaves⟩ := exists_denotes_assigned hfree huj' hu
  intro w hw
  rw [hw.functional hu']
  exact hleaves (hi u hu) (hj uj huj)

/-! ## What unification does to an environment -/

/-- Variables in the types of `S` have been bound to types made of `S`: the environment is extended
and good, and a property of leaves that holds throughout `S` spreads to nothing else. -/
structure Binds (e : Env) (S : List TypeId) (e' : Env) : Prop where
  good : e'.Good
  ext : e.Extends e'
  keeps : ∀ {P : TypeTerm → Prop}, (∀ s ∈ S, e.All P s) → ∀ {i : TypeId}, e.Over i → e.All P i →
    e'.All P i

namespace Binds

variable {S S' : List TypeId}

theorem of_keeps (good : e.Good) (h : e.Keeps e') : e.Binds S e' where
  good := h.good
  ext := h.grows.toExtends
  keeps _ _ hover hi := (h.grows.all_iff good hover).2 hi

theorem of_parts (h : e.Binds S' e')
    (hparts : ∀ {P : TypeTerm → Prop}, (∀ s ∈ S, e.All P s) → ∀ s ∈ S', e.All P s) :
    e.Binds S e' where
  good := h.good
  ext := h.ext
  keeps hS _ hover hi := h.keeps (hparts hS) hover hi

theorem trans (h : e.Binds S e') (h' : e'.Binds S e'') (good : e.Good) (hS : ∀ s ∈ S, e.Over s) :
    e.Binds S e'' where
  good := h'.good
  ext := h.ext.trans h'.ext
  keeps hall _ hover hi :=
    h'.keeps (fun s hs => h.keeps hall (hS s hs) (hall s hs)) (h.ext.isOver good hover)
      (h.keeps hall hover hi)

end Binds

/-- Terms that go with everything when the types of `S` are unified: those that absorb, and untyped
kinds, unless there are none in `S`. -/
structure Spares (e : Env) (free : TypeTerm → Prop) (S : List TypeId) : Prop where
  absorbing : ∀ u : TypeTerm, u.isAbsorbing → free u
  untyped : (∀ u : TypeTerm, ¬ u.isTyped → free u) ∨ ∀ s ∈ S, e.All TypeTerm.isTyped s

section Spares

variable {free : TypeTerm → Prop} {S S' : List TypeId}

theorem Spares.of_parts (h : e.Spares free S)
    (hparts : (∀ s ∈ S, e.All TypeTerm.isTyped s) → ∀ s ∈ S', e'.All TypeTerm.isTyped s) :
    e'.Spares free S' := ⟨h.absorbing, h.untyped.imp_right hparts⟩

theorem Spares.later (h : e.Spares free S) (hS : ∀ s ∈ S, e.Over s) (hbinds : e.Binds S e') :
    e'.Spares free S :=
  h.of_parts fun hall s hs => hbinds.keeps hall (hS s hs) (hall s hs)

theorem Spares.free_of_untyped (h : e.Spares free S) {k : Kind} (hi : i ∈ S)
    (hview : e.types.view i = .atom (.plain k)) (hk : k.isUntyped = true) :
    free (.atom (.plain k)) := by
  have hnot : ¬ (TypeTerm.atom (.plain k)).isTyped := fun htyped => nomatch hk.symm.trans htyped
  obtain hfree | hall := h.untyped
  · exact hfree _ hnot
  · cases hall i hi _ (.atom hview) with
    | atom htyped => exact absurd htyped hnot

end Spares

/-- What unifying two types does. From then on their meanings are as the answer says. -/
structure Unifies (e : Env) (a b : TypeId) (fit : Fit) (e' : Env) :
    Prop extends e.Binds [a, b] e' where
  relates : ∀ {free : TypeTerm → Prop}, e.Spares free [a, b] → fit.isMismatch = false →
    e'.Later (fit.Relates free) a b

theorem Unifies.agree {fit : Fit} (h : e.Unifies a b fit e') (hfit : fit.isMismatch = false)
    (htyped : ∀ s ∈ [a, b], e.All TypeTerm.isTyped s) : e'.Agree a b :=
  (h.relates ⟨fun _ => id, .inr htyped⟩ hfit).imp fun _ _ => Fit.Relates.compatible

end Env

/-! ## Variables -/

/-- A type that is a variable which stands for nothing. -/
structure Env.Unbound (e : Env) (i : TypeId) (v : VarId) : Prop where
  isOver : e.Over i
  view : e.types.view i = .var v
  free : e.binding? v = none

theorem Env.Unbound.grow (h : e.Unbound i v) (good : e.Good) (hgrows : e.Grows e') :
    e'.Unbound i v where
  isOver := hgrows.isOver good h.isOver
  view := (h.isOver.view_eq good.types hgrows.types).trans h.view
  free := (hgrows.binding?_eq v).trans h.free

theorem Env.Unbound.avoids (h : e.Unbound i w) (hne : w ≠ v) : e.Avoids v i := by
  intro u hu
  rw [hu.functional (.free h.view h.free)]
  exact .var fun heq => hne (TypeTerm.var.inj heq)

/-- Letting an unbound variable stand for a type without modifier that means something else. -/
theorem yields_assign (good : e.Good) (ha : e.Unbound a v) (hb : e.Over b)
    (hlookb : e.types.lookup? b = some (.ofShape s)) (havoid : e.Avoids v b)
    (hlit : ∀ k, e.literal? v = some k → e.LiteralTarget k b) :
    Yields (assign v b) e fun _ e' => e.Binds [a, b] e' ∧ e'.Later Eq a b := by
  obtain ⟨hvalid, hle⟩ := ha.isOver.var_bound ha.view
  have hbinds : e.Binds [a, b] (e.assigned v b) := by
    refine ⟨good.assign hvalid hle ha.free hlookb hb havoid hlit, Env.extends_assigned ha.free, ?_⟩
    intro P hall i hover hi
    exact Env.all_assigned good ha.free hb havoid (hall b (by simp)) hover hi
  refine ⟨hbinds, fun f hf u w hu hw => ?_⟩
  -- from now on the variable means what the type means
  refine hu.functional (.bound ?_ (hf.binding? Env.binding?_assigned_self) hw)
  rw [ha.isOver.view_eq good.types hf.types, ha.view]

/-- A variable that stands for nothing may become a literal, and a literal may become narrower; that
changes no meaning. -/
theorem yields_setLiteral {k' : Kind} (good : e.Good) (S : List TypeId) (hvalid : v.isValid)
    (hcount : v.index ≤ e.count) (hfree : e.binding? v = none) (huntyped : k'.isUntyped)
    (hnarrow : ∀ k, e.literal? v = some k → k'.precedence ≤ k.precedence) :
    Yields (setLiteral v k') e fun _ e' => e.Binds S e' ∧ e'.types = e.types ∧
      e'.count = e.count ∧ e'.bindings = e.bindings ∧ e'.literal? v = some k' ∧
      ∀ w ≠ v, e'.literal? w = e.literal? w := by
  show e.Binds S { e with literals := (v, k') :: e.literals } ∧ _
  have hself : Env.literal? { e with literals := (v, k') :: e.literals } v = some k' := by
    simp [Env.literal?]
  have hother (w : VarId) (hne : w ≠ v) :
      Env.literal? { e with literals := (v, k') :: e.literals } w = e.literal? w := by
    simp only [Env.literal?, lookup_cons, beq_eq_false_iff_ne.2 hne]
  have hext : e.Extends { e with literals := (v, k') :: e.literals } := by
    refine ⟨.refl _, .refl, id, fun {w k1} hw => ?_, prefix_rfl,
      fun h => ⟨h.nodup, h.le_count, h.reports⟩⟩
    by_cases heq : w = v
    · subst heq
      exact ⟨k', hself, hnarrow k1 hw⟩
    · exact ⟨k1, (hother w heq).trans hw, .refl⟩
  refine ⟨⟨⟨good.types, fun hw => ?_, fun {w k1} hw => ?_, good.nodup, good.faults⟩, hext,
    fun _ _ _ hi => hi⟩, rfl, rfl, rfl, hself, hother⟩
  · obtain ⟨hvalid, hle, hne, hover, hplain, hu⟩ := good.bound hw
    exact ⟨hvalid, hle, hne, hover, hplain, hu⟩
  · by_cases heq : w = v
    · subst heq
      cases hself.symm.trans hw
      exact ⟨hvalid, hcount, huntyped, fun hj => nomatch hfree.symm.trans hj⟩
    · rw [hother w heq] at hw
      obtain ⟨hvalid, hle, huntyped, htarget⟩ := good.literal hw
      exact ⟨hvalid, hle, huntyped, fun hj => (htarget hj).mono good hext⟩

/-- Two different unbound variables come to mean the same. -/
theorem yields_bindVars (good : e.Good) (ha : e.Unbound a v) (hb : e.Unbound b w)
    (hlookb : e.types.lookup? b = some (.ofShape s)) (hne : w ≠ v) :
    Yields (bindVars v w b) e fun _ e' => e.Binds [a, b] e' ∧ e'.Later Eq a b := by
  have hab : ∀ s ∈ [a, b], e.Over s := by simp [ha.isOver, hb.isOver]
  refine .get_bind ?_
  split
  next lit other hlit hother =>
    -- the second literal's kind may narrow first; afterwards it is no wider than the first
    have hassign {e1 : Env} {k : Kind} (hbinds : e.Binds [a, b] e1) (htypes : e1.types = e.types)
        (hbindings : e1.bindings = e.bindings) (hlitw : e1.literal? w = some k)
        (hle : k.precedence ≤ lit.precedence) (hlitv : e1.literal? v = some lit) :
        Yields (assign v b) e1 fun _ e' => e.Binds [a, b] e' ∧ e'.Later Eq a b := by
      have hunbound {i : TypeId} {x : VarId} (h : e.Unbound i x) : e1.Unbound i x := by
        refine ⟨hbinds.ext.isOver good h.isOver, htypes ▸ h.view, ?_⟩
        unfold Env.binding?
        rw [hbindings]
        exact h.free
      have hb1 := hunbound hb
      refine (yields_assign hbinds.good (hunbound ha) hb1.isOver (by rw [htypes, hlookb])
        (hb1.avoids hne) fun k' hk' => ?_).mono ?_
      · cases hlitv.symm.trans hk'
        exact .literal hb1.view hlitw hle
      · rintro _ e' ⟨hbinds', hsame⟩
        exact ⟨hbinds.trans hbinds' good hab, hsame⟩
    split
    next hlt =>
      have hwide (k : Kind) (hk : e.literal? w = some k) : lit.precedence ≤ k.precedence := by
        cases hother.symm.trans hk
        exact Nat.le_of_lt hlt
      obtain ⟨hvalid, hcount⟩ := hb.isOver.var_bound hb.view
      refine (yields_setLiteral good [a, b] hvalid hcount hb.free
        (good.literal hlit).untyped hwide).bind ?_
      rintro _ e1 ⟨hbinds, htypes, -, hbindings, hlitw, hrest⟩
      exact hassign hbinds htypes hbindings hlitw .refl
        ((hrest v hne.symm).trans hlit)
    next hle =>
      exact hassign (.of_keeps good (.refl good)) rfl rfl hother (Nat.le_of_not_lt hle) hlit
  next _ hliteral hnone =>
    -- the literal is the first variable, so the second one is bound to it
    refine (yields_varType good v).bind fun c e1 hmade => ?_
    have hviewc := view_of_var hmade.lookup?
    have ha1 := ha.grow good hmade.grows
    have hc0 : c ≠ 0 := by
      rintro rfl
      cases hviewc
    have ha0 : a ≠ 0 := by
      rintro rfl
      cases ha.view
    have hviewca := hviewc.trans ha1.view.symm
    have hc1 : e1.Unbound c v := ⟨ha1.isOver.of_view_eq hviewca (.inr ha0), hviewc, ha1.free⟩
    have hsame {f : Env} (hf : e1.Extends f) {u : TypeTerm} (hu : f.Denotes a u) : f.Denotes c u :=
      Env.denotes_of_view_eq hmade.good hc1.isOver ha1.isOver ha0 hviewca hf hu
    refine (yields_assign hmade.good (hb.grow good hmade.grows) hc1.isOver hmade.lookup?
      (hc1.avoids hne.symm) fun k hk => ?_).mono ?_
    · cases hnone.symm.trans ((hmade.grows.literal?_eq w).symm.trans hk)
    rintro _ e' ⟨hbinds, hbc⟩
    refine ⟨?_, fun f hf u w hu hw => ?_⟩
    · have hkeeps : e.Binds [a, b] e1 := .of_keeps good hmade.toKeeps
      refine hkeeps.trans (hbinds.of_parts fun hall => ?_) good hab
      refine forall_mem_cons.2 ⟨hall b (by simp), forall_mem_singleton.2 fun u hu => ?_⟩
      exact hall a (by simp) u (hu.of_view_eq hviewca.symm hc0)
    · exact hbc.symm hf (hsame (hbinds.ext.trans hf) hu) hw
  next _ hnone =>
    refine yields_assign good ha hb.isOver hlookb (hb.avoids hne) ?_
    exact fun k hk => nomatch hnone.symm.trans hk

/-- A variable comes to mean a type, unless the type would contain itself. -/
theorem yields_bindType (good : e.Good) (ha : e.Unbound a v) (hb : e.Over b)
    (hlookb : e.types.lookup? b = some (.ofShape s))
    (hlit : ∀ k, e.literal? v = some k → e.LiteralTarget k b) :
    Yields (bindType v b) e fun fit e' =>
      e.Binds [a, b] e' ∧ (fit.isMismatch = false → fit = .ok ∧ e'.Later Eq a b) := by
  have hab : ∀ s ∈ [a, b], e.Over s := by simp [ha.isOver, hb]
  refine (yields_occursAt v depthLimit good hb).bind fun occurs e1 ⟨hkeeps, havoid⟩ => ?_
  have hbinds : e.Binds [a, b] e1 := .of_keeps good hkeeps
  cases occurs with
  | true => exact ⟨hbinds, fun h => nomatch h⟩
  | false =>
    refine (yields_assign hkeeps.good (ha.grow good hkeeps.grows) (hkeeps.grows.isOver good hb)
      (hkeeps.grows.types.lookup? hlookb)
      ((hkeeps.grows.avoids_iff good hb).2 (havoid rfl)) fun k hk => ?_).bind ?_
    · exact (hlit k ((hkeeps.grows.literal?_eq v).symm.trans hk)).mono good hkeeps.grows.toExtends
    rintro _ e2 ⟨hbinds', hsame⟩
    exact .pure ⟨hbinds.trans hbinds' good hab, fun _ => ⟨rfl, hsame⟩⟩

def Env.IsUntyped (e : Env) (i : TypeId) : Prop :=
  ∃ k : Kind, k.isUntyped = true ∧ e.types.view i = .atom (.plain k)

/-- Letting a variable stand for a type. A literal that meets an untyped kind takes over that kind
and stands for nothing yet; with all other types it comes to mean the same. -/
theorem yields_bind (good : e.Good) (ha : e.Unbound a v) (hb : e.Over b) (hb0 : b ≠ 0)
    (hfreeb : ∀ w, e.types.view b = .var w → e.binding? w = none) :
    Yields (bind v b) e fun fit e' => e.Binds [a, b] e' ∧
      (fit.isMismatch = false → fit = .ok ∧ (e'.Later Eq a b ∨ e.IsUntyped b)) := by
  have hab : ∀ s ∈ [a, b], e.Over s := by simp [ha.isOver, hb]
  obtain hzero | ⟨ty, hlook⟩ := hb.eq_zero_or_lookup?
  · exact absurd hzero hb0
  refine (yields_withModifier good hlook .default).bind fun c e1 hmade => ?_
  -- the type without its modifier has the same view
  have hb1 := hmade.grows.isOver good hb
  have hviewcb : e1.types.view c = e1.types.view b :=
    view_congr hmade.lookup? (hmade.grows.types.lookup? hlook)
  have hviewb := hb.view_eq good.types hmade.grows.types
  have hc1 : e1.Over c := hb1.of_view_eq hviewcb (.inr hb0)
  have hc0 : c ≠ 0 := by
    rintro rfl
    cases hmade.lookup?
  have ha1 := ha.grow good hmade.grows
  have hbinds1 : e.Binds [a, b] e1 := .of_keeps good hmade.toKeeps
  -- what is shown of the type without modifier holds of the type
  have hdone {e' : Env} (hbinds : e1.Binds [a, c] e') : e.Binds [a, b] e' := by
    refine hbinds1.trans (hbinds.of_parts fun hall => ?_) good hab
    refine forall_mem_cons.2 ⟨hall a (by simp), forall_mem_singleton.2 fun u hu => ?_⟩
    exact hall b (by simp) u (hu.of_view_eq hviewcb.symm hc0)
  have hsame {e' : Env} (hext : e1.Extends e') (h : e'.Later Eq a c) : e'.Later Eq a b :=
    fun _ hf _ _ hu hw =>
      h hf hu (Env.denotes_of_view_eq hmade.good hc1 hb1 hb0 hviewcb (hext.trans hf) hw)
  refine .get_bind ?_
  cases hvar : e1.varOf? c with
  | some w =>
    obtain ⟨hviewc, hvalidw⟩ := Env.varOf?_eq_some_iff.1 hvar
    simp only [Option.getD_some]
    split
    next heq =>
      subst heq
      refine ⟨hbinds1, fun _ => ⟨rfl, .inl (hsame (.refl e1) ?_)⟩⟩
      exact Env.later_eq_of_view_eq hmade.good ha1.isOver hc1 hc0 (ha1.view.trans hviewc.symm)
    next hne =>
      have hfreew := (hmade.grows.binding?_eq w).trans
        (hfreeb w (by rw [← hviewb, ← hviewcb, hviewc]))
      refine (yields_bindVars hmade.good ha1 ⟨hc1, hviewc, hfreew⟩ hmade.lookup? hne).bind ?_
      rintro _ e2 ⟨hbinds, hac⟩
      exact .pure ⟨hdone hbinds, fun _ => ⟨rfl, .inl (hsame hbinds.ext hac)⟩⟩
  | none =>
    have hv0 : (0 : VarId) ≠ v := by
      rintro rfl
      exact absurd (ha.isOver.var_bound ha.view).1 (by decide)
    have hbound (hlit : ∀ k, e1.literal? v = some k → e1.LiteralTarget k c) :
        Yields (bindType v c) e1 fun fit e' => e.Binds [a, b] e' ∧
          (fit.isMismatch = false → fit = .ok ∧ (e'.Later Eq a b ∨ e.IsUntyped b)) :=
      (yields_bindType hmade.good ha1 hc1 hmade.lookup? hlit).mono fun fit e' ⟨hbinds, hac⟩ =>
        ⟨hdone hbinds, fun hfit => ⟨(hac hfit).1, .inl (hsame hbinds.ext (hac hfit).2)⟩⟩
    simp only [Option.getD_none, if_neg hv0]
    refine .get_bind ?_
    have hkind : e1.types.kind c = ty.shape.kind := by
      rw [TypeTable.kind, hmade.lookup?]
      rfl
    split
    next hnone => exact hbound fun k hk => nomatch hnone.symm.trans hk
    next lit hlit =>
      refine .get_bind ?_
      rw [hkind]
      split
      next herror =>
        exact hbound fun k hk => .error (view_of_isError hmade.lookup? herror)
      next =>
        split
        next huntyped =>
          -- the kind is that of the type itself
          have hkind : e.IsUntyped b := by
            refine ⟨_, huntyped, ?_⟩
            rw [← hviewb, ← hviewcb, view_of_isUntyped hmade.lookup? huntyped]
            rfl
          split
          next hlt =>
            have hwide (k : Kind) (hk : e1.literal? v = some k) :
                ty.shape.kind.precedence ≤ k.precedence := by
              cases hlit.symm.trans hk
              exact Nat.le_of_lt hlt
            obtain ⟨hvalid, hcount⟩ := ha1.isOver.var_bound ha1.view
            refine (yields_setLiteral hmade.good [a, c] hvalid hcount ha1.free huntyped
              hwide).bind fun _ e2 ⟨hbinds, _⟩ => .pure ?_
            exact ⟨hdone hbinds, fun _ => ⟨rfl, .inr hkind⟩⟩
          next => exact .pure ⟨hbinds1, fun _ => ⟨rfl, .inr hkind⟩⟩
        next =>
          split
          next hfits =>
            refine hbound fun k hk => ?_
            cases hlit.symm.trans hk
            have hnumeric : ty.shape.kind.isNumeric = true := by
              simp only [Kind.fits, Bool.and_eq_true] at hfits
              exact hfits.1.1.2
            obtain ⟨atom, hview, hkind⟩ := view_of_isNumeric hmade.lookup? hnumeric
            exact .number hview (hkind ▸ hfits)
          next => exact .pure ⟨hbinds1, fun h => nomatch h⟩

end UnitCheck.Typing
