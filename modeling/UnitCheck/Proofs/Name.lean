import UnitCheck.Name

/-!
# Tables of names

Names keep their identifiers when others are added. Every table that a unit can have begins with the
empty name, so a table is the one that is rebuilt from its list of names, the map of identifiers
included. In a table made by interning, the list and the map are inverse to each other, so that
identifiers and canonical names stand for each other (`interning`).
-/

namespace UnitCheck

namespace NameTable

variable {t : NameTable} {a b : Text} {i : NameId}

theorem lookup?_add_of_lookup? (h : t.lookup? i = some b) (a : Text) :
    (t.add a).lookup? i = some b := by
  have hlt : i.index < t.names.size := (Array.getElem?_eq_some_iff.1 h).1
  simpa [add, lookup?, Array.getElem?_push, Nat.ne_of_lt hlt] using h

theorem lookup?_intern (t : NameTable) (a : Text) :
    (t.intern a).1.lookup? (t.intern a).2 = some a.composed := by
  unfold intern internCanonical
  split
  next i h => exact t.sound _ i h
  next => simp [add, lookup?]

theorem lookup?_intern_of_lookup? (h : t.lookup? i = some b) (a : Text) :
    (t.intern a).1.lookup? i = some b := by
  unfold intern internCanonical
  split
  · exact h
  · exact lookup?_add_of_lookup? h _

/-- The tables that units have: new ones, ones read from files, and these with further names. -/
inductive Reachable : NameTable → Prop
  | empty : Reachable .empty
  | restore (names : List Text) : Reachable (.restore names)
  | intern {t : NameTable} (a : Text) : Reachable t → Reachable (t.intern a).1

theorem names_foldl_add (as : List Text) :
    (as.foldl add t).names.toList = t.names.toList ++ as := by
  induction as generalizing t with
  | nil => simp
  | cons a as ih => simp [ih, add]

/-- Both the list and the map are determined by the list: a table is rebuilt from its names. -/
theorem Reachable.eq_foldl_add (h : t.Reachable) :
    ∃ as, t.names.toList = .empty :: as ∧ t = as.foldl add .empty := by
  induction h with
  | empty => exact ⟨[], rfl, rfl⟩
  | restore names => exact ⟨names.drop 1, names_foldl_add _, rfl⟩
  | @intern t a _ ih =>
    obtain ⟨as, hnames, ht⟩ := ih
    unfold NameTable.intern internCanonical
    split
    · exact ⟨as, hnames, ht⟩
    · exact ⟨as ++ [a.composed], by simp [add, hnames], by rw [List.foldl_append, ← ht]; rfl⟩

theorem Reachable.restore_names (h : t.Reachable) : NameTable.restore t.names.toList = t := by
  obtain ⟨as, hnames, ht⟩ := h.eq_foldl_add
  rw [hnames, ht]
  rfl

/-! ## Interning -/

/-- The table after names have been interned, one after the other. -/
def run (t : NameTable) (names : List Text) : NameTable := names.foldl (fun t a => (t.intern a).1) t

/-- The list of names and the map of identifiers are inverse to each other. -/
def Inverse (t : NameTable) : Prop := ∀ i a, t.lookup? i = some a ↔ t.findCanonical? a = some i

/-- A name that is new goes to the end of the list, where no identifier of the map leads. -/
theorem Inverse.add (h : t.Inverse) (hnew : t.findCanonical? a = none) : (t.add a).Inverse := by
  refine fun i b => ⟨fun hi => ?_, (t.add a).sound b i⟩
  rw [lookup?, NameTable.add, Array.getElem?_push] at hi
  rw [findCanonical?, NameTable.add, List.lookup_cons]
  split at hi
  next hlast =>
    cases hi
    rw [beq_self_eq_true]
    exact congrArg (some <| Id.mk ·) hlast.symm
  next =>
    have hb := (h i b).1 hi
    have hne : (b == a) = false := beq_false_of_ne fun heq => by simp [heq, hnew] at hb
    rw [hne]
    exact hb

theorem Inverse.intern (h : t.Inverse) (c : Text) : (t.intern c).1.Inverse := by
  unfold NameTable.intern internCanonical
  split
  · exact h
  next hnew => exact h.add hnew

theorem Inverse.run (h : t.Inverse) (names : List Text) : (t.run names).Inverse := by
  induction names generalizing t with
  | nil => exact h
  | cons a names ih => exact ih (h.intern a)

theorem Reachable.run (h : t.Reachable) (names : List Text) : (t.run names).Reachable := by
  induction names generalizing t with
  | nil => exact h
  | cons a names ih => exact ih (.intern a h)

end NameTable

/-! ## A letter with an accent, typed in one piece or in two -/

namespace Composition

/-- What decompositions say of the letter e, the acute accent and the two together. -/
def HasAccent (ds : List Decomposition) : Prop :=
  partsOf 0x65 ds = [] ∧ partsOf 0x301 ds = [] ∧ partsOf 0xE9 ds = [0x65, 0x301] ∧
  (ds.find? fun d => d.isComposed && d.parts == [0x65, 0x301]).map Decomposition.code = some 0xE9
deriving Decidable

def HasAccentClass (cs : List (Nat × CodeRanges)) : Prop :=
  (cs.find? fun e => e.2.has 0x301).map Prod.fst = some 230
deriving Decidable

theorem HasAccent.composedCodes {ds : List Decomposition} {cs : List (Nat × CodeRanges)}
    (h : HasAccent ds) (hmarkClass : HasAccentClass cs) :
    composedCodes ⟨ds, cs⟩ [0x65, 0x301] = [0xE9] ∧ composedCodes ⟨ds, cs⟩ [0xE9] = [0xE9] := by
  obtain ⟨hplain, hmark, hletter, hpair⟩ := h
  have hdecompose : decompose ⟨ds, cs⟩ 0x65 = [0x65] ∧ decompose ⟨ds, cs⟩ 0x301 = [0x301] ∧
      decompose ⟨ds, cs⟩ 0xE9 = [0x65, 0x301] := by
    simp [decompose, decomposeIn, hplain, hmark, hletter]
  have hclass : classOf ⟨ds, cs⟩ 0x65 = 0 ∧ classOf ⟨ds, cs⟩ 0x301 = 230 := by
    unfold HasAccentClass at hmarkClass
    simp [classOf, hmarkClass]
  have hpair' : pair? ⟨ds, cs⟩ 0x65 0x301 = some 0xE9 := by simpa [pair?] using hpair
  simp [Composition.composedCodes, breakRuns, joinsBack, composeAll, reorder, insertMark, compose,
    hdecompose, hclass, hpair', markLimit]

end Composition

namespace NameTable

end NameTable

end UnitCheck
