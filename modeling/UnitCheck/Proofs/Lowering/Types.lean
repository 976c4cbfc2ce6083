import UnitCheck.Proofs.Lowering.Growth
import UnitCheck.Proofs.Syntax.Complete

/-!
# Types of lowered code are those that are written

`Spells c T x i` says that a type of the module is the one that a type expression writes: the same
constructors, and at its leaves the types that the names mean. Modifiers are not looked at.
-/

namespace UnitCheck

open TypeTable

namespace Lowering

open Code Syntax
open Run (Gives)

def typeDecl (c : Context) (n : TypeNode) : DeclId :=
  ((c.tree.type? n.id).map TypeRecord.decl).getD 0

def builtinAtom (i : TypeId) : Atom :=
  ((builtinShapes[i.index - 1]?).bind Shape.atom?).getD (.plain .error)

def declAtom (c : Context) (d : DeclId) : Atom :=
  match c.decls.get? d with
  | none => .plain .error
  | some decl =>
    if decl.kind ≠ .type then .plain .error
    else if decl.builtin then
      builtinAtom ((Builtin.ofName? (c.name decl.name)).getD Builtin.error)
    else .named d

/-- A type of a table is what a type expression writes. -/
def Spells (c : Context) (T : TypeTable) : TypeExpr → TypeId → Prop
  | .absent _, i => i = 0
  | .lost, _ => False
  | .name n _, i => T.view i = .atom (declAtom c (typeDecl c n))
  | .array _ elem length, i => ∃ e,
    T.view i = .wrap (if length = noLength then .slice else .stack length) e ∧ Spells c T elem e
  | .ref _ elem isMut, i => ∃ e, T.view i = .wrap (.reference isMut) e ∧ Spells c T elem e
  | .pointer _ elem, i => ∃ e, T.view i = .wrap .pointer e ∧ Spells c T elem e
  | .optional _ elem, i => ∃ e, T.view i = .wrap .optional e ∧ Spells c T elem e
  | .unknown _ _, i => T.view i = .atom (.plain .error)

variable {c : Context} {T T' : TypeTable} {s : State}

variable {i : TypeId} {s' : State} {α : Type} {w : Wrapper}

theorem view_builtinAtom (wf : T.WellFormed) (h0 : i.index ≠ 0) (h : i.index ≤ 21) :
    T.view i = .atom (builtinAtom i) := by
  obtain ⟨n⟩ := i
  obtain ⟨k, rfl⟩ := Nat.exists_eq_succ_of_ne_zero h0
  have hlt : k < builtinShapes.length := Nat.lt_of_succ_le h
  have hshape := List.getElem?_eq_getElem hlt
  have hatoms : ∀ s ∈ builtinShapes, s.atom?.isSome := by decide
  obtain ⟨a, ha⟩ := Option.isSome_iff_exists.1 (hatoms _ (List.getElem_mem hlt))
  rw [wf.view_builtin hshape ha, builtinAtom, Nat.succ_sub_one, hshape, Option.bind_some, ha]
  rfl

theorem ofName?_getD_le (name : Text) : ((Builtin.ofName? name).getD Builtin.error).index ≠ 0 ∧
      ((Builtin.ofName? name).getD Builtin.error).index ≤ 21 := by
  have hall : ∀ e ∈ Builtin.byName, e.2.index ≠ 0 ∧ e.2.index ≤ 21 := by decide
  unfold Builtin.ofName?
  cases h : Builtin.byName.find? fun e => .ofString e.1 == name with
  | none => exact ⟨by decide, by decide⟩
  | some e => exact hall e (List.mem_of_find?_eq_some h)

theorem Spells.mono (ht : T.Extends T') (wf : T.WellFormed) :
    ∀ {x : TypeExpr} {i : TypeId}, Spells c T x i → Spells c T' x i
  | .absent _, _, h => h
  | .lost, _, h => h
  | .array .., _, ⟨e, hview, helem⟩ | .ref .., _, ⟨e, hview, helem⟩
  | .pointer _ _, _, ⟨e, hview, helem⟩ | .optional _ _, _, ⟨e, hview, helem⟩ => by
    refine ⟨e, (ht.view_eq_of_ne wf ?_).trans hview, Spells.mono ht wf helem⟩
    rw [hview]
    nofun
  | .name _ _, _, h | .unknown _ _, _, h => by
    refine (ht.view_eq_of_ne wf ?_).trans h
    rw [h]
    nofun

/-! ## Making types -/

/-- A step that makes types and nothing else. -/
structure Retypes (s s' : State) : Prop extends Quiet s s' where
  pos : s'.pos = s.pos

theorem Retypes.trans {s'' : State} (h : Retypes s s') (h' : Retypes s' s'') : Retypes s s'' :=
  ⟨h.toQuiet.trans h'.toQuiet, h'.pos.trans h.pos⟩

theorem Retypes.after (h : Retypes s s') (hs : Ready s) {x : α}
    {P : TypeTable → α → Prop} (hx : P s'.module.types x)
    (hmono : ∀ T, s'.module.types.WellFormed → s'.module.types.Extends T → P s'.module.types x →
      P T x) : After (fun t p q L x => q = p ∧ L = [] ∧ P t.module.types x) s x s' :=
  ⟨h.ready hs, [], h.ran, fun _ ht => ⟨h.pos, rfl, hmono _ (h.ready hs).types ht.grows.types hx⟩⟩

theorem gives_onTypes {f : TypeTable → TypeTable × α} (hs : Ready s)
    (wf : (f s.module.types).1.WellFormed) (ht : s.module.types.Extends (f s.module.types).1) :
    Gives (onTypes f) s fun x s' =>
      Retypes s s' ∧ x = (f s.module.types).2 ∧ s'.module.types = (f s.module.types).1 := by
  refine ⟨_, _, rfl, ?_, rfl, rfl⟩
  exact
    { grows := { Module.Grows.refl s.module with types := ht }
      dense := { hs.dense with }
      types := wf
      blocks := rfl
      items := rfl
      globals := rfl
      faults := List.prefix_refl _
      body := rfl
      declSlots := rfl
      lineMarks := rfl
      pos := rfl }

/-- Exchanging the modifier of a type does not change what one sees of it. -/
theorem gives_withModifier (hs : Ready s) (i : TypeId) (m : Modifier) :
    Gives (onTypes (·.withModifier i m)) s fun j s' =>
      Retypes s s' ∧ s'.module.types.view j = s.module.types.view i := by
  cases hlook : s.module.types.lookup? i with
  | none =>
    have hsame := withModifier_of_lookup?_none hlook m
    refine (gives_onTypes hs ?_ ?_).mono ?_
    · simp only [hsame]
      exact hs.types
    · simp only [hsame]
      exact .refl _
    · rintro j s' ⟨hretypes, rfl, htypes⟩
      simp only [hsame] at htypes ⊢
      exact ⟨hretypes, by rw [htypes]⟩
  | some ty =>
    have made := hs.types.withModifier hlook m
    refine (gives_onTypes hs made.wellFormed made.grows).mono ?_
    rintro j s' ⟨hretypes, rfl, htypes⟩
    refine ⟨hretypes, ?_⟩
    rw [htypes, view_congr made.lookup? (made.grows.lookup? hlook),
      made.grows.view_eq hs.types hlook]

theorem gives_intern_wrap (hs : Ready s) {shape : Shape} {e : TypeId}
    (hw : shape.wrap? = some (w, e)) (he : e.index < s.module.types.size) :
    Gives (onTypes (·.intern (.ofShape shape))) s fun j s' =>
      Retypes s s' ∧ s'.module.types.view j = .wrap w e := by
  have made : s.module.types.Made _ _ (.ofShape shape) :=
    hs.types.intern (admits_of_wrap hw he)
  refine (gives_onTypes (f := (·.intern (.ofShape shape))) hs made.wellFormed made.grows).mono ?_
  rintro j s' ⟨hretypes, rfl, htypes⟩
  refine ⟨hretypes, ?_⟩
  rw [htypes]
  exact view_of_wrap made.lookup? hw

theorem gives_namedType (hs : Ready s) (d : DeclId) :
    Gives (namedType c d) s fun i s' => Retypes s s' ∧
      s'.module.types.view i = .atom (declAtom c d) := by
  have hstay : Retypes s s :=
    ⟨.of_module hs rfl rfl rfl (List.prefix_refl _), rfl⟩
  have herror : s.module.types.view Builtin.error = .atom (.plain .error) :=
    view_builtinAtom hs.types (by decide) (by decide)
  unfold namedType declAtom
  cases c.decls.get? d with
  | none => exact .pure ⟨hstay, herror⟩
  | some decl =>
    dsimp only
    split
    · exact .pure ⟨hstay, herror⟩
    · split
      · have hbuiltin := ofName?_getD_le (c.name decl.name)
        exact .pure ⟨hstay, view_builtinAtom hs.types hbuiltin.1 hbuiltin.2⟩
      · obtain ⟨slot, made⟩ := hs.types.named d (c.name decl.name)
        refine (gives_onTypes hs made.wellFormed made.grows).mono ?_
        rintro i s' ⟨hretypes, rfl, htypes⟩
        refine ⟨hretypes, ?_⟩
        rw [htypes]
        exact view_of_atom made.lookup? rfl

theorem Spells.lt_size {x : TypeExpr} (wf : T.WellFormed) (h : Spells c T x i) :
    i.index < T.size := by
  have hview : T.view i ≠ .missing → i.index < T.size := fun hne => by
    obtain ⟨ty, hty⟩ := Option.ne_none_iff_exists'.1 fun hnone =>
      hne (view_eq_missing_iff.2 hnone)
    exact lt_size_of_lookup? hty
  cases x with
  | absent =>
    rw [show i = 0 from h]
    exact wf.size_pos
  | lost => exact h.elim
  | array | ref | pointer | optional =>
    obtain ⟨e, he, -⟩ := h
    exact hview (by rw [he]; nofun)
  | name | unknown => exact hview (by rw [show T.view i = _ from h]; nofun)

theorem gives_wrapped {elem : TypeExpr} {n : TypeNode}
    (ih : Gives (lowerType c elem) s fun i s' => Retypes s s' ∧ Spells c s'.module.types elem i)
    (hs : Ready s) {g : TypeId → Shape}
    (hw : ∀ e, (g e).wrap? = some (w, e)) :
    Gives (do
      let e ← lowerType c elem
      let i ← onTypes (·.intern (.ofShape (g e)))
      onTypes (·.withModifier i n.modifier)) s fun i s' => Retypes s s' ∧
        ∃ e, s'.module.types.view i = .wrap w e ∧ Spells c s'.module.types elem e := by
  refine ih.bind fun e s1 ⟨h1, he⟩ => ?_
  have hs1 := h1.ready hs
  refine (gives_intern_wrap hs1 (hw e) (he.lt_size hs1.types)).bind fun i s2 ⟨h2, hi⟩ => ?_
  have hs2 := h2.ready hs1
  refine (gives_withModifier hs2 i n.modifier).mono fun j s3 ⟨h3, hj⟩ => ?_
  refine ⟨(h1.trans h2).trans h3, e, hj.trans hi, ?_⟩
  exact (he.mono h2.grows.types hs1.types).mono h3.grows.types hs2.types

theorem gives_fn (hs : Ready s) {params : List TypeId} {result : TypeId}
    (h : ∀ i ∈ result :: params, i.index < s.module.types.size) :
    Gives (onTypes (·.fn params result)) s fun i s' =>
      Retypes s s' ∧ s'.module.types.view i = .fn params result := by
  obtain ⟨slot, made, hsig⟩ := hs.types.fn h
  refine (gives_onTypes hs made.wellFormed made.grows).mono ?_
  rintro i s' ⟨hretypes, rfl, htypes⟩
  refine ⟨hretypes, ?_⟩
  rw [htypes]
  unfold view
  rw [made.lookup?]
  dsimp only [Ty.ofShape]
  rw [hsig]

/-- A type that is there at all becomes the type that it writes. -/
theorem gives_lowerType : ∀ (x : TypeExpr) {s : State}, Ready s → (x.isMissing || x.isComplete) →
    Gives (lowerType c x) s fun i s' => Retypes s s' ∧ Spells c s'.module.types x i
  | .absent _, s, hs, _ =>
    .pure ⟨⟨.of_module hs rfl rfl rfl (List.prefix_refl _), rfl⟩, rfl⟩
  | .lost, _, _, h => by cases h
  | .name n _, s, hs, _ => by
    refine (gives_namedType hs _).bind fun i s1 ⟨h1, hi⟩ => ?_
    refine (gives_withModifier (h1.ready hs) i n.modifier).mono fun j s2 ⟨h2, hj⟩ => ?_
    exact ⟨h1.trans h2, hj.trans hi⟩
  | .array n elem length, s, hs, h => by
    have ih := gives_lowerType elem hs (Bool.or_eq_true_iff.2 (.inr h))
    refine gives_wrapped ih hs

      fun e => ?_
    split <;> rfl
  | .ref n elem isMut, s, hs, h => by
    have ih := gives_lowerType elem hs (Bool.or_eq_true_iff.2 (.inr h))
    exact gives_wrapped ih hs fun _ => rfl
  | .pointer n elem, s, hs, h => by
    have ih := gives_lowerType elem hs (Bool.or_eq_true_iff.2 (.inr h))
    exact gives_wrapped ih hs fun _ => rfl
  | .optional n elem, s, hs, h => by
    have ih := gives_lowerType elem hs (Bool.or_eq_true_iff.2 (.inr h))
    exact gives_wrapped ih hs fun _ => rfl
  | .unknown _ _, _, _, h => by cases h

end Lowering

end UnitCheck
