import UnitCheck.Proofs.Typing.Form

/-!
# Literals keep their family

A variable for a number literal is made with a kind, and from then on it is merged with others,
narrowed and settled. Wherever following it ends, the literal fits there (`literals_keep_family`): a
float literal never becomes an integer, and a signed one never becomes unsigned.

That a literal is bound to nothing that it does not fit is part of `Env.Good`. Along a way, kinds
only narrow (`Way.literalEnd`), and what fits a narrower kind fits the wider one (`Kind.fits_mono`).
-/

namespace UnitCheck

open TypeTable

theorem Kind.fits_mono {k k' t : Kind} (hk : k.isUntyped = true)
    (hle : k'.precedence ≤ k.precedence) (h : k'.fits t = true) : k.fits t = true := by
  simp only [fits, Bool.and_eq_true, decide_eq_true_eq] at h ⊢
  exact ⟨⟨⟨hk, h.1.1.2⟩, h.1.2⟩, Nat.le_trans h.2 hle⟩

namespace Typing

variable {e f : Env} {i j : TypeId} {vs : List VarId} {v : VarId} {k k' : Kind}

namespace Env

/-- A literal of kind `k` has become this type: a number that it fits, or the error type. -/
def Settled (e : Env) (k : Kind) (j : TypeId) : Prop :=
  e.types.kind j = .error ∨ k.fits (e.types.kind j) = true

/-- Where following a literal of kind `k` may end. -/
inductive LiteralEnd (e : Env) (k : Kind) (j : TypeId) : Prop
  /-- At a literal that stands for nothing yet and is no wider. -/
  | literal {w : VarId} {k' : Kind} : e.varOf? j = some w → e.binding? w = none →
      e.literal? w = some k' → k'.precedence ≤ k.precedence → LiteralEnd e k j
  | settled : e.Settled k j → LiteralEnd e k j

theorem LiteralEnd.mono (h : e.LiteralEnd k' j) (hk : k.isUntyped = true)
    (hle : k'.precedence ≤ k.precedence) : e.LiteralEnd k j := by
  cases h with
  | literal hvar hfree hw hle' => exact .literal hvar hfree hw (Nat.le_trans hle' hle)
  | settled h => exact .settled (h.imp_right (Kind.fits_mono hk hle))

/-- A float literal is no integer, and a signed one is not unsigned. -/
theorem LiteralEnd.family (h : e.LiteralEnd k j) :
    (k = .untypedFloat → e.types.kind j ≠ .int ∧ e.types.kind j ≠ .uint) ∧
      (k = .untypedInt → e.types.kind j ≠ .uint) := by
  have hfits {t : Kind} (hj : e.types.kind j = t) (hvar : t ≠ .var) (herror : t ≠ .error) :
      k.fits t = true := by
    subst hj
    cases h with
    | literal hw =>
      obtain ⟨m, hlook⟩ := lookup?_of_view_var (varOf?_eq_some_iff.1 hw).1
      rw [kind, hlook] at hvar
      exact absurd rfl hvar
    | settled h => exact h.resolve_left herror
  refine ⟨fun hk => ⟨fun hj => ?_, fun hj => ?_⟩, fun hk hj => ?_⟩ <;>
  · have := hfits hj (by decide) (by decide)
    rw [hk] at this
    cases this

theorem Way.eq_of_atom {a : Atom} (h : e.Way i vs j) (hi : e.types.view i = .atom a) : j = i := by
  cases h with
  | stop => rfl
  | step hv => cases hi.symm.trans hv

/-- Following a literal meets literals only, which are no wider, until the last of them stands for
nothing, for a number or for the error type. -/
theorem Way.literalEnd (h : e.Way i vs j) (good : e.Good) (hv : e.types.view i = .var v)
    (hk : e.literal? v = some k) : e.LiteralEnd k j := by
  induction h generalizing v k with
  | stop hstop =>
    exact .literal (varOf?_eq_some_iff.2 ⟨hv, (good.literal hk).valid⟩) (hstop v hv) hk .refl
  | step hv' hbound hway ih =>
    cases hv.symm.trans hv'
    cases (good.literal hk).target hbound with
    | number hview hfits =>
      rw [hway.eq_of_atom hview]
      exact .settled (.inr (by rwa [kind_of_view_atom hview]))
    | literal hview hw hle => exact (ih hview hw).mono (good.literal hk).untyped hle
    | error hview =>
      rw [hway.eq_of_atom hview]
      exact .settled (.inl (kind_of_view_atom hview))

theorem Way.mono_settled (h : e.Way i vs j) (good : e.Good) (hi : e.Over i) (hj : e.Settled k j)
    (hext : e.Extends f) : f.Way i vs j ∧ f.Settled k j := by
  have hkind : e.types.kind j ≠ .invalid ∧ e.types.kind j ≠ .var := by
    constructor <;>
    · intro heq
      rw [Settled, heq] at hj
      obtain hj | hj := hj
      · cases hj
      · cases ((Bool.and_eq_true_iff.1 (Bool.and_eq_true_iff.1 (Bool.and_eq_true_iff.1 hj).1).1).2)
  refine ⟨h.mono good hi hext fun v hv => ?_, ?_⟩
  · obtain ⟨m, hlook⟩ := lookup?_of_view_var hv
    rw [kind, hlook] at hkind
    exact absurd rfl hkind.2
  · cases hlook : e.types.lookup? j with
    | none =>
      rw [kind, hlook] at hkind
      exact absurd rfl hkind.1
    | some ty =>
      rw [Settled, kind, hlook] at hj
      rwa [Settled, kind, hext.types.lookup? hlook]

theorem settled_applyDefaults (good : e.Good) (h : (applyDefaults e).2.LiteralEnd k j) :
    (applyDefaults e).2.Settled k j := by
  have hdefaults := yields_applyDefaults good
  cases h with
  | settled h => exact h
  | @literal w k' _ hfree hw =>
    have hmem : w ∈ e.literalVars := mem_literalVars (by
      rwa [literal?, ← hdefaults.literals])
    have hsome := hdefaults.settled w hmem
    rw [hfree] at hsome
    cases hsome

end Env

open Env

/-- **Literals keep their family.** A variable that was made for a literal of kind `k` stays one,
whatever is done later. Following it ends at a literal that stands for nothing and is no wider, at a
number that `k` fits, or at the error type; so it never ends at an integer if `k` is the kind of
floats, and never at an unsigned one if `k` is that of signed literals. Behind the defaults it ends
at one of the last two. -/
theorem literals_keep_family {e₀ : Env} (h₀ : e₀.Reachable) (hk : k.isUntyped = true) (span : Span)
    (h : (freshLiteral k span e₀).2.Steps e) :
    e.varOf? (freshLiteral k span e₀).1 = some ⟨e₀.count + 1⟩ ∧
    (∀ i, e.varOf? i = some ⟨e₀.count + 1⟩ → ∃ j, e.follow (e.bindings.length + 1) [] i = .ok j ∧
      e.LiteralEnd k j ∧
      (k = .untypedFloat → e.types.kind j ≠ .int ∧ e.types.kind j ≠ .uint) ∧
      (k = .untypedInt → e.types.kind j ≠ .uint)) ∧
    ∀ f, (applyDefaults e).2.Steps f → ∀ i, e.varOf? i = some ⟨e₀.count + 1⟩ →
      ∃ j, f.follow (f.bindings.length + 1) [] i = .ok j ∧ f.Settled k j := by
  obtain ⟨hfresh, hlit₀⟩ := yields_freshLiteral h₀.good hk span
  obtain ⟨good, hext⟩ := h.good_ext hfresh.good
  obtain ⟨k', hlit, hle⟩ := hext.literal? hlit₀
  refine ⟨varOf?_eq_some_iff.2 ⟨?_, rfl⟩, fun i hi => ?_, fun f hf i hi => ?_⟩
  · exact (hfresh.isOver.view_eq hfresh.good.types hext.types).trans hfresh.view
  · obtain ⟨vs, j, hway⟩ := good.exists_way i
    have hend := (hway.literalEnd good (varOf?_eq_some_iff.1 hi).1 hlit).mono hk hle
    exact ⟨j, hway.follow_all good, hend, hend.family⟩
  · -- the literal is settled right behind the defaults, and stays so
    have hdefaults := yields_applyDefaults good
    obtain ⟨good', hext'⟩ := hf.good_ext hdefaults.good
    obtain ⟨k₁, hlit₁, hle₁⟩ := hdefaults.ext.literal? hlit
    have hview := (varOf?_eq_some_iff.1 hi).1
    have hover : e.Over i := .var hview rfl (good.literal hlit).le_count
    obtain ⟨vs, j, hway⟩ := hdefaults.good.exists_way i
    have hend := hway.literalEnd hdefaults.good
      ((hover.view_eq good.types hdefaults.ext.types).trans hview) hlit₁
    have hsettled := settled_applyDefaults good (hend.mono hk (Nat.le_trans hle₁ hle))
    obtain ⟨hway', hsettled'⟩ :=
      hway.mono_settled hdefaults.good (hdefaults.ext.isOver good hover) hsettled hext'
    exact ⟨j, hway'.follow_all good', hsettled'⟩

/-- A float literal that meets an unsigned one leads to it and narrows its kind. -/
theorem literals_keep_family_merged :
    let e₁ := (freshLiteral .untypedFloat .zero (Env.initial .initial)).2
    let e₂ := (freshLiteral .untypedUint .zero e₁).2
    let e := (unify 22 23 .zero e₂).2
    let f := (applyDefaults e).2
    (∃ j, e.follow (e.bindings.length + 1) [] 22 = .ok j ∧ e.LiteralEnd .untypedFloat j ∧
      e.types.kind j ≠ .int ∧ e.types.kind j ≠ .uint) ∧
    (∃ j, f.follow (f.bindings.length + 1) [] 22 = .ok j ∧ f.Settled .untypedFloat j) ∧
    e.binding? 1 = some 23 ∧ e.literal? 2 = some .untypedFloat := by
  intro e₁ e₂ e f
  have hreach : (Env.initial .initial).Reachable := ⟨.initial, .initial, .refl⟩
  have hsteps : e₁.Steps e := by
    refine .step (.step .refl (.freshLiteral .untypedUint .zero rfl)) (.unify 22 23 .zero ?_ ?_)
    · exact .var (v := 1) (by decide +kernel) rfl (by decide +kernel)
    · exact .var (v := 2) (by decide +kernel) rfl (by decide +kernel)
  obtain ⟨hvar, hend, hsettled⟩ := literals_keep_family hreach (k := .untypedFloat) rfl .zero hsteps
  obtain ⟨j, hj, hlit, hfamily⟩ := hend 22 hvar
  exact ⟨⟨j, hj, hlit, hfamily.1 rfl⟩,
    hsettled f .refl 22 hvar, by decide +kernel, by decide +kernel⟩

end Typing

end UnitCheck
