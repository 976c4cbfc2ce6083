import UnitCheck.Data.JsonReader
import UnitCheck.Text.Number
import UnitCheck.Toml.Basic

/-!
# Numbers and times

Which words are integers, floats and times. Underscores stand between digits, and a number does not
start with a zero that could be left out.
-/

namespace UnitCheck.Toml.Scalar

/-- Whether each underscore follows a digit, and a digit comes last. -/
def underscoresFit (bs : List UInt8) : Bool :=
  let isDigit := fun b : UInt8 => (Hex.value? b).isSome
  go isDigit false bs
where
  go (isDigit : UInt8 → Bool) (after : Bool) : List UInt8 → Bool
    | [] => after
    | b :: r => (b != 95 || after) && go isDigit (isDigit b) r

/-- Whether a number has a zero in front of other digits. The letter of a base may follow a zero. -/
def hasLeadingZero : List UInt8 → Bool
  | 48 :: b :: _ => !(b == 98 || b == 111 || b == 120)
  | s :: 48 :: _ :: _ => s == 43 || s == 45
  | _ => false

def int? (t : Text) : Option Value :=
  if underscoresFit t.bytes && !hasLeadingZero t.bytes then
    match t.toInt64 with
    | .ok n => some (.int n)
    | .error _ => none
  else none

/-- The pieces between points and marks of exponents, without empty ones. -/
def pieces (bs : List UInt8) : List (List UInt8) :=
  (go bs []).filter (!·.isEmpty)
where
  go : List UInt8 → List UInt8 → List (List UInt8)
    | [], cur => [cur.reverse]
    | b :: r, cur =>
      if b == 46 || b == 101 || b == 69 then cur.reverse :: go r [] else go r (b :: cur)

/-- Whether a text is a float. A point has digits on both sides. -/
def isFloat (t : Text) : Bool :=
  let ps := pieces t.bytes
  let plain := t.bytes.filter (· != 95)
  let plain := if plain.head? == some 43 then plain.drop 1 else plain
  ps.all underscoresFit && !(hasLeadingZero (ps.headD [])) &&
    match Json.readNumber plain with
    | some (_, []) => true
    | _ => false

/-! ### Times -/

/-- Takes digits off the front of a text; their value has to lie below a limit. -/
def digits (count limit : Nat) (bs : List UInt8) : Option (Nat × List UInt8) :=
  let ds := bs.take count
  let n := Json.digitsValue ds
  if ds.length == count && ds.all Json.isDigit && n < limit then some (n, bs.drop count) else none

def mark (b : UInt8) : List UInt8 → Option (List UInt8)
  | c :: r => if c == b then some r else none
  | [] => none

def daysIn (year month : Nat) : Nat :=
  if month == 2 then
    if year % 4 == 0 && (year % 100 != 0 || year % 400 == 0) then 29 else 28
  else if [4, 6, 9, 11].contains month then 30
  else 31

def date (bs : List UInt8) : Option (List UInt8) := do
  let (year, r) ← digits 4 10000 bs
  let (month, r) ← digits 2 13 (← mark 45 r)
  let (day, r) ← digits 2 32 (← mark 45 r)
  if month == 0 || day == 0 || daysIn year month < day then none else some r

/-- An hour has one digit or two. -/
def hour (bs : List UInt8) : Option (List UInt8) :=
  let count := if (bs.drop 1).head?.any Json.isDigit then 2 else 1
  (digits count 24 bs).map Prod.snd

/-- A time of day; fractions of a second may follow. -/
def clock (bs : List UInt8) : Option (List UInt8) := do
  let r ← hour bs
  let (_, r) ← digits 2 60 (← mark 58 r)
  let (_, r) ← digits 2 60 (← mark 58 r)
  match r with
  | 46 :: d :: r => if Json.isDigit d then some (r.dropWhile Json.isDigit) else some (46 :: d :: r)
  | r => some r

def zone (bs : List UInt8) : Option (List UInt8) :=
  match bs with
  | 90 :: r => some r
  | b :: r => do
    if b != 43 && b != 45 then none
    let (_, r) ← digits 2 25 r
    let (_, r) ← digits 2 61 (← mark 58 r)
    some r
  | [] => none

/-- Whether a text is a point in time, a date or a time of day. -/
def isTime (t : Text) : Bool :=
  let bs := t.bytes.map fun b =>
    if b == 122 then 90 else if b == 116 || b == 32 then 84 else b
  let ends := fun r : Option (List UInt8) => r == some []
  let full := ((date bs).bind (mark 84)).bind clock
  ends (full.bind zone) || ends full || ends (date bs) || ends (clock bs)

end UnitCheck.Toml.Scalar
