import UnitCheck.Text.Basic

/-!
# Hexadecimal text

Bytes as pairs of lower-case digits, and the reading of such pairs. Reading stops at the first
byte that is no digit; only after every pair has been read does a digit left over count.
-/

namespace UnitCheck.Hex

def digit (n : Nat) : UInt8 := if n < 10 then UInt8.ofNat (48 + n) else UInt8.ofNat (87 + n)

def upperDigit (n : Nat) : UInt8 := if n < 10 then UInt8.ofNat (48 + n) else UInt8.ofNat (55 + n)

def digits (dig : Nat → UInt8) (n : Nat) : Nat → List UInt8
  | 0 => []
  | width + 1 => dig (n / Nat.pow 16 width % 16) :: digits dig n width

def ofByte (b : UInt8) : List UInt8 := [digit (b.toNat / 16), digit (b.toNat % 16)]

def encode (bs : List UInt8) : Text := ⟨bs.flatMap ofByte⟩

def value? (b : UInt8) : Option Nat :=
  if 48 ≤ b && b ≤ 57 then some (b.toNat - 48)
  else if 97 ≤ b && b ≤ 102 then some (b.toNat - 87)
  else if 65 ≤ b && b ≤ 70 then some (b.toNat - 55)
  else none

inductive Error
  | badByte (b : UInt8)
  | oddLength
  /-- There is no room for a byte that was read. -/
  | overflow
deriving DecidableEq

/-- Reads bytes, each of which takes one place of the room. -/
def decode : List UInt8 → Nat → Except Error (List UInt8)
  | [], _ => .ok []
  | [a], _ => match value? a with
    | some _ => .error .oddLength
    | none => .error (.badByte a)
  | a :: b :: rest, room => match value? a, value? b, room with
    | none, _, _ => .error (.badByte a)
    | some _, none, _ => .error (.badByte b)
    | some _, some _, 0 => .error .overflow
    | some x, some y, room + 1 => (UInt8.ofNat (x * 16 + y) :: ·) <$> decode rest room

end UnitCheck.Hex
