import UnitCheck.Text.Basic

/-!
# Decimal text of measured numbers

Durations are kept in nanoseconds and shown in milliseconds, as binary64 numbers. This module
holds the arithmetic: rounding a quotient to binary64, the fewest digits that read back as the
same number, and a fixed number of places. Everything is exact arithmetic on natural numbers.
-/

namespace UnitCheck.Decimal

def roundDiv (num den : Nat) : Nat :=
  let q := num / den
  let r := num % den
  if 2 * r < den then q
  else if den < 2 * r then q + 1
  else q + q % 2

/-- A positive binary64 number `mant * 2 ^ exp`. -/
structure Binary where
  mant : Nat
  exp : Int
deriving DecidableEq

namespace Binary

def num (b : Binary) : Nat := b.mant * Nat.pow 2 b.exp.toNat

def den (b : Binary) : Nat := Nat.pow 2 (-b.exp).toNat

/-- The binary64 number nearest to `num / den`, ties to an even last bit. Durations lie far inside
the range of normal numbers, so the exponent needs no bounds. -/
def ofQuotient (num den : Nat) : Binary :=
  if num = 0 then ⟨0, 0⟩
  else
    -- a first guess of the exponent, off by one at most
    let e : Int := (num.log2 : Int) - den.log2 - 52
    let scaled := fun e : Int => roundDiv (num * Nat.pow 2 (-e).toNat) (den * Nat.pow 2 e.toNat)
    let m := scaled e
    if m < Nat.pow 2 52 then ⟨scaled (e - 1), e - 1⟩
    else if Nat.pow 2 53 ≤ m then ⟨scaled (e + 1), e + 1⟩
    else ⟨m, e⟩

end Binary

private def tenNum (p : Int) : Nat := Nat.pow 10 p.toNat
private def tenDen (p : Int) : Nat := Nat.pow 10 (-p).toNat

/-- Decimal digits and the position of the point: `0.digits * 10 ^ point`. -/
structure Digits where
  digits : List UInt8
  point : Int
deriving DecidableEq

private def digitsOf (n : Nat) : List UInt8 := (Text.ofNat n).bytes

private def stripZeros (ds : List UInt8) : List UInt8 := (ds.reverse.dropWhile (· == 48)).reverse

/-- The decimal exponent of a positive fraction: the greatest `p` with `10 ^ p ≤ num / den`. -/
private def magnitude (num den : Nat) : Int :=
  let guess : Int := ((digitsOf num).length : Int) - (digitsOf den).length
  if tenNum guess * den ≤ num * tenDen guess then guess else guess - 1

/-- Whether the decimal `d * 10 ^ p` reads back as `b`: it lies between the middles to the two
neighbours, ends included when the mantissa is even. -/
private def readsBack (b : Binary) (d : Nat) (p : Int) : Bool :=
  -- all numbers are scaled by the same factor: twice the fraction, in units of half a step
  let unitNum := Nat.pow 2 b.exp.toNat
  let unitDen := Nat.pow 2 (-b.exp).toNat
  let value := 2 * d * tenNum p * unitDen
  let lower := (2 * b.mant - 1) * unitNum * tenDen p
  let upper := (2 * b.mant + 1) * unitNum * tenDen p
  -- below a power of two the lower neighbour is twice as near
  let lowerTight :=
    if b.mant == Nat.pow 2 52 then decide ((4 * b.mant - 1) * unitNum * tenDen p ≤ 2 * value)
    else decide (lower ≤ value)
  let strictOk := decide (lower < value) && decide (value < upper)
  if b.mant % 2 == 0 then lowerTight && decide (value ≤ upper) else strictOk

/-- The number's two neighbours among the multiples of `10 ^ p`, in units of the last place, the
nearer one first. -/
private def neighbours (b : Binary) (p : Int) : List Nat :=
  let num := b.num * tenDen p
  let den := b.den * tenNum p
  let near := roundDiv num den
  if near = num / den then [near, near + 1] else [near, num / den]

/-- Tries `count` digits, then one more, at most `fuel` more times. If any multiple of a power of
ten reads back then one of the two neighbours does. -/
private def shortestFrom (b : Binary) : Nat → Nat → Digits
  | fuel, count =>
    let p : Int := magnitude b.num b.den + 1 - count
    let finish := fun n : Nat => Digits.mk (stripZeros (digitsOf n)) (p + (digitsOf n).length)
    match (neighbours b p).find? (readsBack b · p), fuel with
    | some n, _ => finish n
    | none, 0 => finish (roundDiv (b.num * tenDen p) (b.den * tenNum p))
    | none, fuel + 1 => shortestFrom b fuel (count + 1)

def shortest (b : Binary) : Digits := shortestFrom b 16 1

/-- How numbers are written in reports: positional between `10 ^ -6` and `10 ^ 21`, otherwise with
an exponent. -/
def render (d : Digits) : Text :=
  let ds := d.digits
  if d.point < -5 || 21 < d.point then
    let e := d.point - 1
    let tail : List UInt8 := match ds.drop 1 with
      | [] => []
      | r => 46 :: r
    let mark : Text := if e < 0 then "e-" else "e+"
    ⟨ds.take 1 ++ tail⟩ ++ mark ++ Text.ofNat e.natAbs
  else if d.point ≤ 0 then
    "0." ++ ⟨List.replicate d.point.natAbs 48 ++ ds⟩
  else
    let n := d.point.toNat
    if ds.length ≤ n then ⟨ds ++ List.replicate (n - ds.length) 48⟩
    else ⟨ds.take n⟩ ++ "." ++ ⟨ds.drop n⟩

def fixed (places : Nat) (num den : Nat) : Text :=
  let scaled := roundDiv (num * Nat.pow 10 places) den
  let whole := Text.ofNat (scaled / Nat.pow 10 places)
  if places = 0 then whole
  else whole ++ "." ++ (Text.ofNat (scaled % Nat.pow 10 places)).padLeft places 48

/-! ### Milliseconds -/

/-- Nanoseconds as milliseconds: the count is rounded to binary64 first, then the quotient. -/
def millis (ns : Nat) : Binary :=
  let n := Binary.ofQuotient ns 1
  Binary.ofQuotient n.num (n.den * 1000000)

private def signed (ns : Int) (t : Text) : Text := if ns < 0 then "-" ++ t else t

/-- Milliseconds with the fewest digits that read back. -/
def millisShortest (ns : Int) : Text :=
  if ns = 0 then "0" else signed ns (render (shortest (millis ns.natAbs)))

def millisFixed (places : Nat) (ns : Int) : Text :=
  let b := millis ns.natAbs
  signed ns (fixed places b.num b.den)

end UnitCheck.Decimal
