import UnitCheck.Data.Json
import UnitCheck.Text.Decimal

/-!
# Reading JSON

`Json.parse?` reads one value that takes up a whole text. Strings come out as UTF-8: half of a
surrogate pair without its other half becomes the replacement character. A number keeps its text,
and one beyond the range of binary64 is refused.
-/

namespace UnitCheck.Json

def skipBlanks (bs : List UInt8) : List UInt8 :=
  bs.dropWhile fun b => b == 32 || b == 9 || b == 10 || b == 13

/-! ### Strings -/

/-- The number behind an escape, in four hexadecimal digits. -/
def escapedUnit? (a b c d : UInt8) : Option Nat := do
  pure ((((← Hex.value? a) * 16 + (← Hex.value? b)) * 16 + (← Hex.value? c)) * 16 +
    (← Hex.value? d))

def isHighHalf (n : Nat) : Bool := 0xD800 ≤ n && n < 0xDC00

def isLowHalf (n : Nat) : Bool := 0xDC00 ≤ n && n < 0xE000

/-- The bytes of a code point, the replacement character for half of a pair. -/
def pointBytes (n : Nat) : List UInt8 :=
  (Text.ofString
    (String.singleton (if isHighHalf n || isLowHalf n then '�' else Char.ofNat n))).bytes

def escaped? (b : UInt8) : Option UInt8 :=
  match b with
  | 34 => some 34
  | 92 => some 92
  | 47 => some 47
  | 98 => some 8
  | 102 => some 12
  | 110 => some 10
  | 114 => some 13
  | 116 => some 9
  | _ => none

/-- Reads the rest of a string behind what has been read of it, newest byte first. Each step takes a
byte at least. -/
def readString : Nat → List UInt8 → List UInt8 → Option (Text × List UInt8)
  | 0, _, _ => none
  | fuel + 1, done, bs =>
    match bs with
    | 34 :: r => some (⟨done.reverse⟩, r)
    | 92 :: 117 :: a :: b :: c :: d :: r =>
      match escapedUnit? a b c d with
      | none => none
      | some n =>
        let other? := match r with
          | 92 :: 117 :: e :: f :: g :: h :: r =>
            (escapedUnit? e f g h).bind fun m => if isLowHalf m then some (m, r) else none
          | _ => none
        match isHighHalf n, other? with
        | true, some (m, r) =>
          let point := 0x10000 + (n - 0xD800) * 1024 + (m - 0xDC00)
          readString fuel ((pointBytes point).reverse ++ done) r
        | _, _ => readString fuel ((pointBytes n).reverse ++ done) r
    | 92 :: e :: r =>
      match escaped? e with
      | none => none
      | some b => readString fuel (b :: done) r
    | b :: r => if b < 32 then none else readString fuel (b :: done) r
    | [] => none

/-! ### Numbers -/

structure Parts where
  isNegative : Bool
  /-- All digits of the mantissa, without the point. -/
  digits : List UInt8
  /-- The power of ten that the digits are multiplied with. -/
  exponent : Int

def digitsValue (ds : List UInt8) : Nat := ds.foldl (fun n b => n * 10 + (b.toNat - 48)) 0

def isDigit (b : UInt8) : Bool := 48 ≤ b && b ≤ 57

def Parts.ofText (t : Text) : Parts :=
  let isNegative := t.bytes.head? == some 45
  let bs := if isNegative then t.bytes.drop 1 else t.bytes
  let isMark := fun b : UInt8 => b == 101 || b == 69
  let mant := bs.takeWhile (!isMark ·)
  let expo := (bs.dropWhile (!isMark ·)).drop 1
  let size := digitsValue (expo.filter isDigit)
  let frac := (mant.dropWhile (· != 46)).drop 1
  ⟨isNegative, mant.filter isDigit,
    (if expo.head? == some 45 then -(size : Int) else size) - frac.length⟩

/-- The absolute value of a number, rounded to binary64 and cut to an integer. Powers of ten beyond
any binary64 number are not computed. -/
def Parts.magnitude (p : Parts) : Nat :=
  let m := digitsValue p.digits
  if m = 0 || p.exponent + p.digits.length < 0 then 0
  else if 400 < p.exponent + p.digits.length then Nat.pow 2 1024
  else
    let b := Decimal.Binary.ofQuotient (m * Nat.pow 10 p.exponent.toNat)
      (Nat.pow 10 (-p.exponent).toNat)
    b.num / b.den

def takeDigits (bs : List UInt8) : Option (List UInt8 × List UInt8) :=
  let ds := bs.takeWhile isDigit
  if ds.isEmpty then none else some (ds, bs.dropWhile isDigit)

def takeSign (isSign : UInt8 → Bool) : List UInt8 → List UInt8 × List UInt8
  | b :: r => if isSign b then ([b], r) else ([], b :: r)
  | [] => ([], [])

def readNumber (bs : List UInt8) : Option (Text × List UInt8) := do
  let (sign, r) := takeSign (· == 45) bs
  let (whole, r) ← takeDigits r
  if 1 < whole.length && whole.head? == some 48 then none
  let (frac, r) ← match r with
    | 46 :: r => (takeDigits r).map fun (ds, r) => (46 :: ds, r)
    | r => some ([], r)
  let (expo, r) ← match r with
    | b :: r' =>
      if b == 101 || b == 69 then
        let (s, r') := takeSign (fun b => b == 43 || b == 45) r'
        (takeDigits r').map fun (ds, r') => (b :: s ++ ds, r')
      else some ([], r)
    | [] => some ([], [])
  let t : Text := ⟨sign ++ whole ++ frac ++ expo⟩
  if Nat.pow 2 1024 ≤ (Parts.ofText t).magnitude then none
  pure (t, r)

/-! ### Values -/

mutual

/-- Reads a value. Every value, item and member takes a byte at least, so the number of bytes is
enough fuel. -/
def readValue : Nat → List UInt8 → Option (Json × List UInt8)
  | 0, _ => none
  | fuel + 1, bs =>
    match skipBlanks bs with
    | 123 :: r =>
      match skipBlanks r with
      | 125 :: r => some (.obj [], r)
      | r => (readMembers fuel [] r).map fun (ms, r) => (.obj ms, r)
    | 91 :: r =>
      match skipBlanks r with
      | 93 :: r => some (.arr [], r)
      | r => (readItems fuel [] r).map fun (xs, r) => (.arr xs, r)
    | 34 :: r => (readString (r.length + 1) [] r).map fun (t, r) => (.str t, r)
    | 116 :: 114 :: 117 :: 101 :: r => some (.bool true, r)
    | 102 :: 97 :: 108 :: 115 :: 101 :: r => some (.bool false, r)
    | 110 :: 117 :: 108 :: 108 :: r => some (.null, r)
    | r => (readNumber r).map fun (t, r) => (.number t, r)

/-- Reads the items that follow, behind those read already, newest first. -/
def readItems : Nat → List Json → List UInt8 → Option (List Json × List UInt8)
  | 0, _, _ => none
  | fuel + 1, done, bs => do
    let (x, r) ← readValue fuel bs
    match skipBlanks r with
    | 44 :: r => readItems fuel (x :: done) r
    | 93 :: r => pure ((x :: done).reverse, r)
    | _ => none

/-- Reads the members that follow, behind those read already, newest first. -/
def readMembers : Nat → List (Text × Json) → List UInt8 → Option (List (Text × Json) × List UInt8)
  | 0, _, _ => none
  | fuel + 1, done, bs =>
    match skipBlanks bs with
    | 34 :: r => do
      let (k, r) ← readString (r.length + 1) [] r
      match skipBlanks r with
      | 58 :: r =>
        let (v, r) ← readValue fuel r
        match skipBlanks r with
        | 44 :: r => readMembers fuel ((k, v) :: done) r
        | 125 :: r => pure (((k, v) :: done).reverse, r)
        | _ => none
      | _ => none
    | _ => none

end

def parse? (t : Text) : Option Json :=
  match readValue (t.size + 1) t.bytes with
  | some (j, r) => if (skipBlanks r).isEmpty then some j else none
  | none => none

end UnitCheck.Json
