import UnitCheck.Text.Rune
import UnitCheck.Text.Hex
import UnitCheck.Text.Printable

/-!
# Quoted text

The form in which messages show a value given by the user: between double quotes, with escapes for
everything that would not show as itself.
-/

namespace UnitCheck

namespace Quoted

private def escape (letter : Char) (digits : List UInt8) : List UInt8 :=
  92 :: UInt8.ofNat letter.toNat :: digits

def rune (r : Rune) : List UInt8 :=
  if r.isStray then r.bytes.flatMap fun b => escape 'x' (Hex.ofByte b)
  else if r.code == 0x22 || r.code == 0x5C then 92 :: r.bytes
  else if isPrintable r.code then r.bytes
  else match r.code with
    | 0x07 => escape 'a' []
    | 0x08 => escape 'b' []
    | 0x0C => escape 'f' []
    | 0x0A => escape 'n' []
    | 0x0D => escape 'r' []
    | 0x09 => escape 't' []
    | 0x0B => escape 'v' []
    | n =>
      if n < 0x20 || n == 0x7F then escape 'x' (Hex.digits Hex.digit n 2)
      else if n < 0x10000 then escape 'u' (Hex.digits Hex.digit n 4)
      else escape 'U' (Hex.digits Hex.digit n 8)

end Quoted

def Text.quoted (t : Text) : Text := ⟨34 :: t.runes.flatMap Quoted.rune ++ [34]⟩

/-- A code point as `U+0067 'g'`; the character itself only if it is printable. -/
def codePointLabel (n : Nat) : Text :=
  let width := if n < 0x10000 then 4 else if n < 0x100000 then 5 else 6
  let code : Text := "U+" ++ ⟨Hex.digits Hex.upperDigit n width⟩
  if isPrintable n then code ++ " '" ++ Text.ofCode n ++ "'" else code

end UnitCheck
