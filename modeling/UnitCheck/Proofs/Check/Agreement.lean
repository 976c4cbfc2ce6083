import UnitCheck.Check.Session
import UnitCheck.Proofs.Check.Wire

/-!
# Verdicts that agree

Two verdicts agree if they say the same about a unit: everything that can be looked up in one of
them can be looked up in the other, with the same result. What belongs to one run is left aside: how
long it took, and whether the verdict comes from a cache. The name of the unit is left aside too;
statements mention it where it matters.

The passes determine a verdict up to agreement: it makes no difference whether it was just reached
or was stored under another threshold and read again (`shown_agrees`, `served_agrees`).
-/

namespace UnitCheck

/-! ## Modules and types -/

/-- The modules say the same. Of items with one declaration and of marks on one node only the last
ones count, and how a table finds its types is left aside. -/
structure Code.Module.Agrees (m n : Code.Module) : Prop where
  item? : ∀ d, m.item? d = n.item? d
  lineMarks : ∀ i, m.lineMarks.lookup i = n.lineMarks.lookup i
  valueMarks : ∀ i, m.valueMarks.lookup i = n.valueMarks.lookup i
  localMarks : ∀ i, m.localMarks.lookup i = n.localMarks.lookup i
  types : m.types.rows = n.types.rows
  rest : { m with
    items := n.items
    lineMarks := n.lineMarks
    valueMarks := n.valueMarks
    localMarks := n.localMarks
    types := n.types } = n

theorem Code.Module.stored_agrees (m : Module) : m.stored.Agrees m where
  item? d := by
    simp only [item?, stored]
    rw [Id.lookup_reverse_latest]
  lineMarks := Id.lookup_reverse_latest _
  valueMarks := Id.lookup_reverse_latest _
  localMarks := Id.lookup_reverse_latest _
  types := rfl
  rest := rfl

namespace Typing.Typed

theorem lookup_latest {k : IdKind} {α : Type} (es : List (Id k × α)) (i : Id k) :
    (latest es).lookup i = es.lookup i := by
  rw [latest, Id.lookup_latest, Id.lookup_reverse_latest]

/-- The same types are said to belong to the same things. -/
structure Agrees (t u : Typed) : Prop where
  declTypes : ∀ d, t.declTypes.lookup d = u.declTypes.lookup d
  valueTypes : ∀ v, t.valueTypes.lookup v = u.valueTypes.lookup v
  localTypes : ∀ l, t.localTypes.lookup l = u.localTypes.lookup l
  copies : ∀ v, v ∈ t.copies ↔ v ∈ u.copies
  faults : t.faults = u.faults

theorem stored_agrees (t : Typed) : t.stored.Agrees t where
  declTypes := lookup_latest _
  valueTypes := lookup_latest _
  localTypes := lookup_latest _
  copies v := by
    have hcopies : v ∈ (t.copies.map fun v => (v, ())).map Prod.fst ↔ v ∈ t.copies := by simp
    rw [stored, Id.mem_map_fst_iff, lookup_latest, ← Id.mem_map_fst_iff, hcopies]
  faults := rfl

end Typing.Typed

namespace Check

structure LoweredCode.Agrees (c d : LoweredCode) : Prop where
  module : c.module.Agrees d.module
  faults : c.faults = d.faults

/-! ## Verdicts -/

namespace Verdict

/-- The note on timings that a check adds to what it shows; to a verdict from a cache it adds
none. -/
def timingNote (o : Options) (v : Verdict) : List Fault :=
  if o.showTimings && !v.isCached then [timingFault v.unit v.timings] else []

/-- What a check under the given options shows of a unit is the same in both verdicts. -/
structure Agrees (o : Options) (v w : Verdict) : Prop where
  digest : v.digest = w.digest
  code : Option.Rel LoweredCode.Agrees v.code w.code
  typed : Option.Rel Typing.Typed.Agrees v.typed w.typed
  faults : ∃ fs, v.faults = fs ++ v.timingNote o ∧ w.faults = fs ++ w.timingNote o
  dropped : v.dropped = w.dropped
  isFatal : v.isFatal = w.isFatal

def capped (limit : Int) (fs : List Fault) : List Fault :=
  if 0 < limit ∧ limit < fs.length then fs.take limit.toNat else fs

def excess (limit : Int) (fs : List Fault) : Int :=
  if 0 < limit ∧ limit < fs.length then fs.length - limit else 0

theorem cap_eq (limit : Int) (v : Verdict) :
    v.cap limit =
      { v with faults := capped limit v.faults, dropped := v.dropped + excess limit v.faults } := by
  unfold cap capped excess
  split
  · rfl
  · rw [Int.add_zero]

end Verdict

/-- Both checks fail alike, or they give verdicts that are related. -/
inductive Alike (R : Verdict → Verdict → Prop) :
    Except Failure Verdict → Except Failure Verdict → Prop
  | failed (e : Failure) : Alike R (.error e) (.error e)
  | found {v w : Verdict} : R v w → Alike R (.ok v) (.ok w)

namespace Checking

open Verdict

variable {u u' : SourceUnit} {digest : Digest} {threshold : Severity} {p : Passes} {t t' : Timings}

/-- What is shown of a verdict that was just reached: some faults, and the note on timings. -/
theorem shown_eq (o : Options) (v : Verdict) (hv : v.isCached = false) :
    shown o v =
      { v with
        faults := capped o.limit v.faults ++ v.timingNote o
        dropped := v.dropped + excess o.limit v.faults } := by
  unfold shown timingNote
  rw [cap_eq, hv]
  cases o.showTimings <;> simp [withTimings]

theorem served_eq (o : Options) (u : SourceUnit) (v : Verdict) :
    (served o u v).1 =
      { v with
        faults := capped o.limit v.faults
        dropped := v.dropped + excess o.limit v.faults
        isFatal := fails o.threshold v.faults
        isCached := true
        files := u.sourceFiles } := by
  rw [served, cap_eq]
  rfl

theorem unit_shown (o : Options) (v : Verdict) (hv : v.isCached = false) :
    (shown o v).unit = v.unit := by
  rw [shown_eq o v hv]

theorem unit_served (o : Options) (u : SourceUnit) (v : Verdict) :
    (served o u v).1.unit = v.unit := by
  rw [served_eq]

/-- What a check shows of a verdict does not depend on when it was reached. -/
theorem shown_agrees (o : Options) (hu : u.faults = u'.faults) :
    (shown o (.ofPasses u digest threshold p t)).Agrees o
      (shown o (.ofPasses u' digest threshold p t')) := by
  rw [shown_eq o _ rfl, shown_eq o _ rfl]
  exact
    { digest := rfl
      code := .some ⟨⟨fun _ => rfl, fun _ => rfl, fun _ => rfl, fun _ => rfl, rfl, rfl⟩, rfl⟩
      typed := .some ⟨fun _ => rfl, fun _ => rfl, fun _ => rfl, fun _ => .rfl, rfl⟩
      faults := ⟨capped o.limit (u'.faults ++ p.faults), by rw [← hu]; rfl, rfl⟩
      dropped := by simp only [ofPasses, hu]
      isFatal := by simp only [ofPasses, hu] }

/-- A verdict from a cache shows what a new one shows, whatever the threshold was when it was
stored. -/
theorem served_agrees (o : Options) (hu : u.faults = u'.faults) :
    (served o u' (ofPasses u digest threshold p t).stored).1.Agrees o
      (shown o (.ofPasses u' digest o.threshold p t')) := by
  rw [served_eq, shown_eq o _ rfl]
  exact
    { digest := rfl
      code := .some ⟨Code.Module.stored_agrees _, rfl⟩
      typed := .some (Typing.Typed.stored_agrees _)
      faults :=
        ⟨capped o.limit (u'.faults ++ p.faults), by simp [timingNote, stored, ofPasses, hu], rfl⟩
      dropped := by simp only [ofPasses, stored, hu]
      isFatal := by simp only [ofPasses, stored, hu] }

end Checking

end Check

end UnitCheck
