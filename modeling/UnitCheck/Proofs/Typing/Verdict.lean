import UnitCheck.Proofs.Ty.Copy
import UnitCheck.Typing.Unify

/-!
# What the verdict of a unification says

Unification answers with a `Fit`. `Fit.Relates` is what this answer says about the meanings of the
two types, rule by rule as they are compared: which of them may differ, and where the copy is that a
`needsCopy` asks for. What the parameters of function types are said to be is less than what the
rest is said to be, since a copy that is needed inside of a parameter is not part of the answer.

Every answer but a mismatch says that the types are compatible (`Fit.Relates.compatible`).
-/

namespace UnitCheck.Typing

/-- What an answer says of the two types, where terms that are `free` go with everything. -/
inductive Fit.Relates (free : TypeTerm → Prop) : Fit → (expect got : TypeTerm) → Prop
  | freeLeft {a b : TypeTerm} : free a → Relates free .ok a b
  | freeRight {a b : TypeTerm} : free b → Relates free .ok a b
  | refl (a : TypeTerm) : Relates free .ok a a
  | wrap (w : Wrapper) {fit : Fit} {a b : TypeTerm} :
      Relates free fit a b → Relates free fit (.wrap w a) (.wrap w b)
  | fn {fit : Fit} {ps qs : List TypeTerm} {r s : TypeTerm} : ps.length = qs.length →
      (∀ (k : Nat) (p q : TypeTerm), ps[k]? = some p → qs[k]? = some q → Compatible free p q) →
      Relates free fit r s → Relates free fit (.fn ps r) (.fn qs s)
  /-- The value is bound more strictly than it is expected to be. -/
  | value {fit : Fit} {a b : TypeTerm} : b.isCopy = true → Relates free fit a b →
      Relates free .needsCopy a b
  /-- The value is a reference where its referent is expected. -/
  | referent (isMut : Bool) {a b : TypeTerm} : a.isReference = false → b.isCopy = true →
      Compatible free a b → Relates free .needsCopy a (.wrap (.reference isMut) b)

namespace Fit.Relates

variable {free : TypeTerm → Prop} {fit outer : Fit} {a b : TypeTerm}

theorem compatible (h : Relates free fit a b) : Compatible free a b := by
  induction h with
  | freeLeft h => exact .freeLeft h
  | freeRight h => exact .freeRight h
  | refl a => exact .refl a
  | wrap w _ ih => exact .wrap w ih
  | fn hlen hps _ ih => exact .fn hlen hps ih
  | value _ _ ih => exact ih
  | referent isMut href _ h => exact .copy isMut href h

theorem eq_ok_or (h : Relates free fit a b) : fit = .ok ∨ fit = .needsCopy := by
  induction h with
  | freeLeft | freeRight | refl => exact .inl rfl
  | wrap _ _ ih | fn _ _ _ ih => exact ih
  | value | referent => exact .inr rfl

theorem join (h : Relates free fit a b) (hcopy : outer ≠ .ok → b.isCopy = true)
    (houter : outer.isMismatch = false) : Relates free (outer.join fit) a b := by
  cases outer with
  | mismatch => cases houter
  | ok => obtain rfl | rfl := h.eq_ok_or <;> exact h
  | needsCopy => obtain rfl | rfl := h.eq_ok_or <;> exact .value (hcopy nofun) h

theorem error_self (h : fit = .ok ∨ fit = .needsCopy) : Relates free fit .error .error := by
  obtain rfl | rfl := h
  · exact .refl _
  · exact .value rfl (.refl _)

/-- What is said of two types is said of them also if both are cut at the same depth. -/
theorem cut (hfree : ∀ u, free u → ∀ n, free (u.cut n)) (herror : free .error)
    (h : Relates free fit a b) (n : Nat) : Relates free fit (a.cut n) (b.cut n) := by
  induction h generalizing n with
  | freeLeft h => exact .freeLeft (hfree _ h n)
  | freeRight h => exact .freeRight (hfree _ h n)
  | refl a => exact .refl _
  | wrap w h ih =>
    cases n with
    | zero => exact error_self h.eq_ok_or
    | succ n => exact .wrap w (ih n)
  | fn hlen hps h ih =>
    cases n with
    | zero => exact error_self h.eq_ok_or
    | succ n =>
      refine .fn (by simpa using hlen) (fun k p q hp hq => ?_) (ih n)
      rw [List.getElem?_map] at hp hq
      obtain ⟨u, hu, rfl⟩ := Option.map_eq_some_iff.1 hp
      obtain ⟨w, hw, rfl⟩ := Option.map_eq_some_iff.1 hq
      exact (hps k u w hu hw).cut hfree herror n n
  | value hcopy _ ih => exact .value (TypeTerm.isCopyAt_cut hcopy n) (ih n)
  | referent isMut href hcopy h =>
    cases n with
    | zero => exact error_self (.inr rfl)
    | succ n =>
      exact .referent isMut (Compatible.isReference_cut _ href) (TypeTerm.isCopyAt_cut hcopy n)
        (h.cut hfree herror (n + 1) n)

end Fit.Relates

end UnitCheck.Typing
