import UnitCheck.Lowering.Program
import Mathlib.Tactic.Common

/-!
# What steps of lowering keep

Some things hold of the state of lowering before and after every step, and some facts about it stay
true once they are. An `Upkeep` is such an invariant with the facts that go with it. `Keeps U known
a o` says of a step: if the invariant holds, and the facts that are `known`, the invariant holds
behind the step, and the facts `o` about its outcome do. Nothing is said of a step that aborts.

Steps that follow each other know what the earlier ones gave (`Keeps.bind`), so each piece of
lowering has one short lemma, and the walk over the syntax only puts them together.
-/

namespace UnitCheck.Lowering

open Code Syntax

/-- An invariant of the state of lowering, and facts that stay true in later states. -/
structure Upkeep (φ : Type) where
  inv : State → Prop
  le : State → State → Prop
  holds : State → φ → Prop
  refl : ∀ s, le s s
  trans : ∀ {s s1 s2}, le s s1 → le s1 s2 → le s s2
  mono : ∀ {s s' x}, holds s x → le s s' → holds s' x

namespace Upkeep

/-- A step that keeps the invariant, and gives facts about its outcome. -/
def Keeps {φ α : Type} (U : Upkeep φ) (known : List φ) (a : Lower α) (o : α → List φ) : Prop :=
  ∀ ⦃s s' : State⦄ ⦃x : α⦄, a s = .ok x s' → U.inv s → (∀ i ∈ known, U.holds s i) →
    U.inv s' ∧ U.le s s' ∧ ∀ i ∈ o x, U.holds s' i

namespace Keeps

variable {φ α β : Type} {U : Upkeep φ} {known known' : List φ} {a : Lower α} {f : α → Lower β}
  {o : α → List φ} {o2 : β → List φ}

theorem mono (h : U.Keeps known a o) (hknown : known ⊆ known') : U.Keeps known' a o :=
  fun _ _ _ hrun hs hk => h hrun hs fun i hi => hk i (hknown hi)

variable {x : α} {p : Prop} {b : Lower α}

theorem pure (h : o x ⊆ known) : U.Keeps known (Pure.pure x) o := by
  intro s s' y hrun hs hk
  cases hrun
  exact ⟨hs, U.refl _, fun i hi => hk i (h hi)⟩

theorem assume (more : List φ) (hmore : ∀ s, U.inv s → (∀ i ∈ known, U.holds s i) →
    ∀ i ∈ more, U.holds s i) (h : U.Keeps (more ++ known) a o) : U.Keeps known a o :=
  fun s _ _ hrun hs hk => h hrun hs (List.forall_mem_append.2 ⟨hmore s hs hk, hk⟩)

theorem constant (h : ∀ s, U.inv s → ∀ i ∈ o x, U.holds s i) : U.Keeps known (Pure.pure x) o :=
  .assume (o x) (fun s hs _ => h s hs) (.pure (List.subset_append_left ..))

theorem throw (e : Abort) : U.Keeps known (throw e : Lower α) o := nofun

/-- What the first step gives is known to the second one. -/
theorem bind (h : U.Keeps known a o) (hf : ∀ x, U.Keeps (o x ++ known) (f x) o2) :
    U.Keeps known (a >>= f) o2 := by
  intro s s2 y hrun hs hk
  replace hrun : EStateM.bind a f s = .ok y s2 := hrun
  rw [EStateM.bind] at hrun
  split at hrun
  next x s1 ha =>
    obtain ⟨hs1, hle, hx⟩ := h ha hs hk
    have hk1 : ∀ i ∈ o x ++ known, U.holds s1 i :=
      List.forall_mem_append.2 ⟨hx, fun i hi => U.mono (hk i hi) hle⟩
    obtain ⟨hs2, hle', hy⟩ := hf x hrun hs1 hk1
    exact ⟨hs2, U.trans hle hle', hy⟩
  next => cases hrun

theorem behind {new : List φ} (h : U.Keeps known a o)
    (hf : ∀ x, U.Keeps (o x ++ (new ++ known)) (f x) o2) : U.Keeps (new ++ known) (a >>= f) o2 :=
  (h.mono (List.subset_append_right ..)).bind hf

theorem andThen (h : U.Keeps known a fun _ => [])
    (hf : ∀ x, U.Keeps known (f x) o2) : U.Keeps known (a >>= f) o2 :=
  h.bind hf

theorem discard (h : U.Keeps known a o) : U.Keeps known (discard a) fun _ => [] :=
  h.bind fun _ => .pure (List.nil_subset _)

theorem map {g : α → β} (h : U.Keeps known a o) (hg : ∀ x, o2 (g x) ⊆ o x ++ known) :
    U.Keeps known (g <$> a) o2 :=
  h.bind fun x => .pure (hg x)

theorem inspect {f : State → Lower α}
    (hf : ∀ s, U.inv s → (∀ i ∈ known, U.holds s i) → U.Keeps known (f s) o) :
    U.Keeps known (get >>= f) o :=
  fun s _ _ hrun hs hk => hf s hs hk hrun hs hk

theorem get_bind {f : State → Lower α} (more : State → List φ)
    (hmore : ∀ s, U.inv s → ∀ i ∈ more s, U.holds s i)
    (hf : ∀ s, U.inv s → (∀ i ∈ known, U.holds s i) → U.Keeps (more s ++ known) (f s) o) :
    U.Keeps known (get >>= f) o :=
  fun s _ _ hrun hs hk => hf s hs hk hrun hs (List.forall_mem_append.2 ⟨hmore s hs, hk⟩)

theorem read {f : State → Lower α} (hf : ∀ s, U.Keeps known (f s) o) :
    U.Keeps known (get >>= f) o :=
  inspect fun s _ _ => hf s

theorem need_bind {γ : Type} {r? : Option γ} {f : γ → Lower α}
    (hf : ∀ r, r? = some r → U.Keeps known (f r) o) : U.Keeps known (Run.need r? >>= f) o := by
  cases r? with
  | none =>
    intro s s' y hrun
    cases hrun
  | some r => exact hf r rfl

theorem ite [Decidable p] (ha : p → U.Keeps known a o)
    (hb : ¬ p → U.Keeps known b o) : U.Keeps known (if p then a else b) o := by
  split
  next h => exact ha h
  next h => exact hb h

theorem ite_bind [Decidable p] (ha : p → U.Keeps known a o)
    (hb : ¬ p → U.Keeps known b o) (hf : ∀ x, U.Keeps (o x ++ known) (f x) o2) :
    U.Keeps known (if p then a >>= f else b >>= f) o2 :=
  .ite (fun h => (ha h).bind hf) fun h => (hb h).bind hf

end Keeps

end Upkeep

end UnitCheck.Lowering
