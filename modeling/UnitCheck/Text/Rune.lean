import UnitCheck.Text.Basic

/-!
# Code points of a text

`Text.runes` reads a text as UTF-8. A byte that starts no well-formed sequence is one rune of its
own, with the replacement code point and size one, so the sizes of the runes always add up to the
size of the text.
-/

namespace UnitCheck

structure Rune where
  code : Nat
  bytes : List UInt8
deriving DecidableEq

namespace Rune

/-- The code point that stands for a byte that is not UTF-8. -/
def replacement : Nat := 0xFFFD

def isStray (r : Rune) : Bool := r.code == replacement && r.bytes.length == 1

end Rune

namespace Text

private def isTail (b : UInt8) : Bool := 0x80 ≤ b && b ≤ 0xBF

private def low6 (b : UInt8) : Nat := b.toNat % 64

private def two? (a b : UInt8) : Option Nat :=
  if 0xC2 ≤ a && a ≤ 0xDF && isTail b then some (a.toNat % 32 * 64 + low6 b) else none

/-- The code point of a well-formed three-byte sequence: not overlong, not a surrogate. -/
private def three? (a b c : UInt8) : Option Nat :=
  let n := a.toNat % 16 * 4096 + low6 b * 64 + low6 c
  if 0xE0 ≤ a && a ≤ 0xEF && isTail b && isTail c && 0x800 ≤ n && !(0xD800 ≤ n && n ≤ 0xDFFF) then
    some n
  else none

/-- The code point of a well-formed four-byte sequence: not overlong, at most U+10FFFF. -/
private def four? (a b c d : UInt8) : Option Nat :=
  let n := a.toNat % 8 * 262144 + low6 b * 4096 + low6 c * 64 + low6 d
  if 0xF0 ≤ a && a ≤ 0xF4 && isTail b && isTail c && isTail d && 0x10000 ≤ n && n ≤ 0x10FFFF then
    some n
  else none

def runesOf : List UInt8 → List Rune
  | [] => []
  | a :: rest =>
    if a < 0x80 then ⟨a.toNat, [a]⟩ :: runesOf rest
    else match rest with
      | [] => [⟨Rune.replacement, [a]⟩]
      | b :: rest2 =>
        match two? a b with
        | some n => ⟨n, [a, b]⟩ :: runesOf rest2
        | none => match rest2 with
          | [] => ⟨Rune.replacement, [a]⟩ :: runesOf (b :: [])
          | c :: rest3 =>
            match three? a b c with
            | some n => ⟨n, [a, b, c]⟩ :: runesOf rest3
            | none => match rest3 with
              | [] => ⟨Rune.replacement, [a]⟩ :: runesOf (b :: c :: [])
              | d :: rest4 =>
                match four? a b c d with
                | some n => ⟨n, [a, b, c, d]⟩ :: runesOf rest4
                | none => ⟨Rune.replacement, [a]⟩ :: runesOf (b :: c :: d :: rest4)

def runes (t : Text) : List Rune := runesOf t.bytes

/-- The UTF-8 bytes of a code point; a number that is no code point gives the replacement. -/
def ofCode (n : Nat) : Text :=
  if h : n.isValidChar then ⟨String.utf8EncodeChar ⟨n.toUInt32, by
    have hlt : n < UInt32.size := by
      rcases h with h | ⟨_, h⟩ <;> simp only [UInt32.size] <;> omega
    simpa [UInt32.isValidChar, Nat.toUInt32, UInt32.toNat_ofNat_of_lt' hlt] using h⟩⟩
  else ⟨[0xEF, 0xBF, 0xBD]⟩

end Text

end UnitCheck
