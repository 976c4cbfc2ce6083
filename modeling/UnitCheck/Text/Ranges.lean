/-!
# Sets of code points

A set of code points as a list of closed intervals, in increasing order. The standard's property
tables are written as words such as `300+6F`, in hexadecimal: how far an interval starts behind the
one before it, and how many code points it has behind its first. This module reads them.
-/

namespace UnitCheck

abbrev CodeRanges := Array (Nat × Nat)

namespace CodeRanges

/-! ### Reading the written form -/

/-- The parts of a list of characters between the characters equal to `sep`. -/
def splitChars (sep : Char) : List Char → List (List Char)
  | [] => [[]]
  | c :: cs =>
    if c = sep then [] :: splitChars sep cs
    else match splitChars sep cs with
      | [] => [[c]]
      | p :: ps => (c :: p) :: ps

/-- The non-empty words of a table, which blanks and line ends divide. -/
def wordsOf (cs : List Char) : List (List Char) :=
  (splitChars ' ' (cs.map fun c => if c == '\n' then ' ' else c)).filter (!·.isEmpty)

def words (s : String) : List (List Char) := wordsOf s.toList

def cut (sep : Char) (w : List Char) : List Char × List Char :=
  (w.takeWhile (· != sep), (w.dropWhile (· != sep)).drop 1)

def digit (c : Char) : Nat :=
  if '0' ≤ c && c ≤ '9' then c.toNat - '0'.toNat else c.toNat - 'A'.toNat + 10

def number (w : List Char) : Nat := w.foldl (fun n c => n * 16 + digit c) 0

/-- Reads `a-b`, or `a` for an interval of one code point. Of `b`, the leading digits that it has in
common with `a` are left out. -/
def pairOfWord (w : List Char) : Nat × Nat :=
  let (a, b) := cut '-' w
  (number a, number (a.take (a.length - b.length) ++ b))

/-- Reads one interval behind the other, as `gap+more` or as `gap`. -/
def ofGaps (ws : List (List Char)) : CodeRanges :=
  (ws.foldl (fun (out, last) w =>
    let (gap, more) := cut '+' w
    let first := last + number gap
    (out.push (first, first + number more), first + number more)) (#[], 0)).1

def ofWords (s : String) : CodeRanges := ofGaps (words s)

/-! ### Membership -/

/-- Looks for the interval of `n` between the positions `lo` and `hi`, halving at most `fuel`
times. -/
def search (r : CodeRanges) (n : Nat) : Nat → Nat → Nat → Bool
  | 0, _, _ => false
  | fuel + 1, lo, hi =>
    if hi ≤ lo then false
    else
      let mid := (lo + hi) / 2
      match r[mid]? with
      | none => false
      | some (a, b) =>
        if n < a then search r n fuel lo mid
        else if b < n then search r n fuel (mid + 1) hi
        else true

def has (r : CodeRanges) (n : Nat) : Bool := r.search n (r.size + 1) 0 r.size

end CodeRanges

end UnitCheck
