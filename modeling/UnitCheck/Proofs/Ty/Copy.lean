import UnitCheck.Ty.Numeric
import UnitCheck.Proofs.Ty.Denotes

/-!
# Values that may be copied

`TypeTerm.isCopyAt` asks of a type that is written out what `TypeTable.isCopyAt` asks of an
identifier.

The table looks at its own entries and says no at a variable, whatever the variable stands for. So
its yes does not depend on variables and is a yes for every meaning of the type
(`Denotes.isCopyAt`), while its no may change when a variable is replaced.
-/

namespace UnitCheck

def Atom.isCopy : Atom → Bool
  | plain k =>
    match k with
    | .error | .unit | .none | .bool | .char | .untypedInt | .untypedUint | .untypedFloat => true
    | _ => false
  | int _ | uint _ | float _ => true
  | named _ => false

/-- Whether values of a type with one part may be copied, given whether those of the part may. -/
def Wrapper.isCopy : Wrapper → Bool → Bool
  | stack _, part | optional, part => part
  | heap, _ | slice, _ => false
  | reference isMut, _ => !isMut
  | pointer, _ => true

/-- Whether values of a type may be copied, with `n` levels left to look into. -/
def TypeTerm.isCopyAt : Nat → TypeTerm → Bool
  | 0, _ => false
  | _ + 1, atom a => a.isCopy
  | n + 1, wrap w u => w.isCopy (isCopyAt n u)
  | _ + 1, missing | _ + 1, fn _ _ | _ + 1, var _ => false

def TypeTerm.isCopy (u : TypeTerm) : Bool := u.isCopyAt TypeTable.copyDepth

/-- The question of the table, by the view of the type. -/
theorem TypeTable.isCopyAt_succ (t : TypeTable) (n : Nat) (i : TypeId) :
    t.isCopyAt (n + 1) i = match t.view i with
      | .atom a => a.isCopy
      | .wrap w elem => w.isCopy (t.isCopyAt n elem)
      | .missing | .fn _ _ | .var _ => false := by
  rw [isCopyAt, view]
  cases t.lookup? i with
  | none => rfl
  | some ty =>
    obtain ⟨s, m⟩ := ty
    cases s with
    | array s elem n => cases s <;> simp [Wrapper.ofArray, Wrapper.isCopy]
    | fn slot => cases t.signature? i <;> rfl
    | plain | int | uint | float | reference | pointer | optional | named | var => rfl

theorem Wrapper.isCopy_mono {w : Wrapper} {part part' : Bool} (h : w.isCopy part = true)
    (hpart : part = true → part' = true) : w.isCopy part' = true := by
  cases w with
  | stack | optional => exact hpart h
  | heap | slice => cases h
  | reference | pointer => exact h

variable {t : TypeTable} {n : Nat} {i : TypeId} {u : TypeTerm}

theorem TypeTable.Extends.isCopyAt {t' : TypeTable} (ht : t.Extends t') (wf : t.WellFormed)
    (h : t.isCopyAt n i = true) : t'.isCopyAt n i = true := by
  induction n generalizing i with
  | zero => cases h
  | succ n ih =>
    have hne : t.view i ≠ .missing := by
      intro hmissing
      rw [isCopyAt_succ, hmissing] at h
      cases h
    rw [isCopyAt_succ] at h ⊢
    rw [ht.view_eq_of_ne wf hne]
    cases hview : t.view i with
    | wrap w elem =>
      rw [hview] at h
      exact Wrapper.isCopy_mono h ih
    | missing | atom | fn | var =>
      rw [hview] at h
      exact h

/-- What the table says may be copied may be copied whatever variables stand for. -/
theorem Denotes.isCopyAt {σ : VarId → Option TypeId} (hu : Denotes t σ i u)
    (h : t.isCopyAt n i = true) : u.isCopyAt n = true := by
  induction n generalizing i u with
  | zero => cases h
  | succ n ih =>
    rw [TypeTable.isCopyAt_succ] at h
    cases hu with
    | missing => cases h
    | atom hview =>
      rw [hview] at h
      exact h
    | wrap hview helem =>
      rw [hview] at h
      exact Wrapper.isCopy_mono h (ih helem)
    | fn hview | free hview | bound hview =>
      -- neither a function nor a variable may be copied
      rw [hview] at h
      cases h

namespace TypeTerm

variable {u : TypeTerm} {n : Nat}

theorem isCopyAt_cut (h : u.isCopyAt n = true) (m : Nat) : (u.cut m).isCopyAt n = true := by
  induction n generalizing u m with
  | zero => cases h
  | succ n ih =>
    cases m with
    | zero => rfl
    | succ m =>
      cases u with
      | wrap w u => exact Wrapper.isCopy_mono h fun hu => ih hu m
      | missing | atom | fn | var => exact h

end TypeTerm

end UnitCheck
