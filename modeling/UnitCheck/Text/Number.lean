import UnitCheck.Text.Quoted

/-!
# Numbers as people write them

Integers with a sign and in several bases: `0x`, `0o` and `0b` name one, and a zero in front means
base eight. Single underscores may stand between digits and behind the mark of a base. A number has
to fit into 64 bits with sign.
-/

namespace UnitCheck

inductive NumberError
  | invalid
  | outOfRange
deriving DecidableEq

def NumberError.message : NumberError → Text
  | invalid => "invalid syntax"
  | outOfRange => "value out of range"

namespace Number

def digitValue? (b : UInt8) : Option Nat :=
  if 48 ≤ b && b ≤ 57 then some (b.toNat - 48)
  else if 97 ≤ b && b ≤ 122 then some (b.toNat - 87)
  else if 65 ≤ b && b ≤ 90 then some (b.toNat - 55)
  else none

/-- The base that the letter behind a zero names. -/
def baseOf? (b : UInt8) : Option Nat :=
  if b == 98 || b == 66 then some 2
  else if b == 111 || b == 79 then some 8
  else if b == 120 || b == 88 then some 16
  else none

/-- The base of a number without sign, and its digits with their underscores. -/
def splitBase (bs : List UInt8) : Nat × List UInt8 :=
  match bs with
  | 48 :: b :: c :: r =>
    match baseOf? b with
    | some base => (base, c :: r)
    | none => (8, b :: c :: r)
  | 48 :: r => (8, r)
  | bs => (10, bs)

/-- Whether every underscore stands between digits. What comes before may count as a digit. -/
def underscoresFit (afterDigit : Bool) : List UInt8 → Bool
  | [] => true
  | [95] => false
  | 95 :: b :: r => afterDigit && b != 95 && underscoresFit true (b :: r)
  | _ :: r => underscoresFit true r

/-- The value of digits in a base. Reading ends where 64 bits are exceeded, whatever follows. -/
def value (base : Nat) (ds : List UInt8) : Except NumberError Nat :=
  ds.foldlM (fun n b =>
    match digitValue? b with
    | some d =>
      if base ≤ d then .error .invalid
      else if Nat.pow 2 64 ≤ n * base + d then .error .outOfRange
      else .ok (n * base + d)
    | none => .error .invalid) 0

end Number

open Number in
def Text.toInt64 (t : Text) : Except NumberError Int := do
  let isNegative := t.bytes.head? == some 45
  let bs := if isNegative || t.bytes.head? == some 43 then t.bytes.drop 1 else t.bytes
  if bs.isEmpty then throw .invalid
  let (base, ds) := splitBase bs
  let n ← value base (ds.filter (· != 95))
  if !underscoresFit (bs.head? == some 48) ds then throw .invalid
  if n < Nat.pow 2 63 then return if isNegative then -(n : Int) else n
  if isNegative && n == Nat.pow 2 63 then return -(n : Int)
  throw .outOfRange

def Text.toBool? (t : Text) : Option Bool :=
  match t.toString? with
  | some "1" | some "t" | some "T" | some "true" | some "TRUE" | some "True" => some true
  | some "0" | some "f" | some "F" | some "false" | some "FALSE" | some "False" => some false
  | _ => none

end UnitCheck
