import UnitCheck.Abort
import UnitCheck.Id
import UnitCheck.Text.Composed

/-!
# Names

A name table gives every name an identifier: its position among the names in order of first use.
Names are brought into canonical form first, so that one name typed in two ways is one name. The
empty name is always there, at position zero.

A table read back from a file keeps its names as they are written, also if one of them occurs
twice; the later occurrence is then the one that is found.
-/

namespace UnitCheck

structure NameTable where
  names : Array Text
  /-- The identifier that each name is found by, newest first. -/
  ids : List (Text × NameId)
  sound : ∀ a i, ids.lookup a = some i → names[i.index]? = some a

namespace NameTable

def empty : NameTable where
  names := #[.empty]
  ids := [(.empty, ⟨0⟩)]
  sound a i h := by
    rw [List.lookup_cons] at h
    split at h
    next heq =>
      cases h
      rw [eq_of_beq heq]
      rfl
    next => cases h

def size (t : NameTable) : Nat := t.names.size

/-- Adds a name behind the others, whether it is known or not. -/
def add (t : NameTable) (a : Text) : NameTable where
  names := t.names.push a
  ids := (a, ⟨t.names.size⟩) :: t.ids
  sound b i h := by
    rw [List.lookup_cons] at h
    split at h
    next heq =>
      cases h
      rw [eq_of_beq heq]
      exact Array.getElem?_push_size
    next =>
      have hold := t.sound b i h
      have hlt := (Array.getElem?_eq_some_iff.1 hold).1
      rwa [Array.getElem?_push, if_neg (Nat.ne_of_lt hlt)]

def findCanonical? (t : NameTable) (a : Text) : Option NameId := t.ids.lookup a

def find? (t : NameTable) (a : Text) : Option NameId := t.findCanonical? a.composed

/-- Adds a name already in canonical form unless it is known. -/
def internCanonical (t : NameTable) (a : Text) : NameTable × NameId :=
  match t.findCanonical? a with
  | some i => (t, i)
  | none => (t.add a, ⟨t.names.size⟩)

def intern (t : NameTable) (a : Text) : NameTable × NameId := t.internCanonical a.composed

def lookup? (t : NameTable) (i : NameId) : Option Text := t.names[i.index]?

def lookup (t : NameTable) (i : NameId) : Except Abort Text :=
  match t.lookup? i with
  | some a => .ok a
  | none => .error .unknownName

/-- The name as messages show it; a name that is empty or unknown has a placeholder. -/
def display (t : NameTable) (i : NameId) : Text :=
  match t.lookup? i with
  | some a => if a.isEmpty then "<anon>" else a
  | none => "<anon>"

/-- Rebuilds a table from its list of names. The first name is the empty one whatever the list
says. -/
def restore (names : List Text) : NameTable := (names.drop 1).foldl add empty

end NameTable

end UnitCheck
