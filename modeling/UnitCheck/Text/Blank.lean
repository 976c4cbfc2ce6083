import UnitCheck.Text.Rune

/-!
# Blanks

White space as the standard lists it, and the two operations that use it: trimming a text and
taking it apart into words.
-/

namespace UnitCheck

def isBlank (n : Nat) : Bool :=
  (0x09 ≤ n && n ≤ 0x0D) || n == 0x20 || n == 0x85 || n == 0xA0 || n == 0x1680 ||
  (0x2000 ≤ n && n ≤ 0x200A) || n == 0x2028 || n == 0x2029 || n == 0x202F || n == 0x205F ||
  n == 0x3000

namespace Text

private def ofRunes (rs : List Rune) : Text := ⟨rs.flatMap Rune.bytes⟩

def trim (t : Text) : Text :=
  let blank := fun r : Rune => isBlank r.code
  ofRunes ((t.runes.dropWhile blank).reverse.dropWhile blank).reverse

def fields (t : Text) : List Text :=
  (go t.runes).filterMap fun rs => if rs.isEmpty then none else some (ofRunes rs)
where
  go : List Rune → List (List Rune)
    | [] => [[]]
    | r :: rs =>
      if isBlank r.code then [] :: go rs
      else match go rs with
        | [] => [[r]]
        | p :: ps => (r :: p) :: ps

end Text

end UnitCheck
