import UnitCheck.Text.Rune
import UnitCheck.Text.ComposedData

/-!
# Canonical composition

One name can be typed with a composed letter or with a letter and its marks. `Text.composed` gives
both the same bytes: it decomposes every code point, puts marks in the order of their combining
classes and composes again. A run of more than thirty marks is broken up by a joiner that composes
with nothing, which bounds how far composition has to look. Bytes that are not UTF-8 stay as they
are and nothing composes across them.
-/

namespace UnitCheck

namespace Composition

/-- The parts of a code point in a list of decompositions that is sorted by code point. -/
def partsOf (n : Nat) : List Decomposition → List Nat
  | [] => []
  | d :: ds => if d.code < n then partsOf n ds else if d.code = n then d.parts else []

variable (t : Tables)

def classOf (n : Nat) : Nat :=
  if n < 0x300 then 0
  else ((t.classes.find? fun e => e.2.has n).map Prod.fst).getD 0

/-! ### Hangul syllables -/

def syllableBase : Nat := 0xAC00
def leadBase : Nat := 0x1100
def vowelBase : Nat := 0x1161
def trailBase : Nat := 0x11A7

/-- Decomposes a code point and its first part, in a number of steps at most. -/
def decomposeIn : Nat → Nat → List Nat
  | 0, n => [n]
  | steps + 1, n =>
    match partsOf n t.decompositions with
    | a :: parts => decomposeIn steps a ++ parts
    | [] => [n]

/-- The full canonical decomposition of a code point, which takes three steps at most. -/
def decompose (n : Nat) : List Nat :=
  if 0xAC00 ≤ n && n ≤ 0xD7A3 then
    let s := n - syllableBase
    let tail := if s % 28 == 0 then [] else [trailBase + s % 28]
    (leadBase + s / 588) :: (vowelBase + s % 588 / 28) :: tail
  else if n < 0xC0 then [n]
  else decomposeIn t 3 n

def pair? (a b : Nat) : Option Nat :=
  if 0x1100 ≤ a && a ≤ 0x1112 && 0x1161 ≤ b && b ≤ 0x1175 then
    some (syllableBase + ((a - leadBase) * 21 + (b - vowelBase)) * 28)
  else if 0xAC00 ≤ a && a ≤ 0xD7A3 && (a - syllableBase) % 28 == 0 && 0x11A8 ≤ b && b ≤ 0x11C2 then
    some (a + (b - trailBase))
  else (t.decompositions.find? fun d => d.isComposed && d.parts == [a, b]).map Decomposition.code

/-! ### The three steps -/

def markLimit : Nat := 30

def breaker : Nat := 0x034F

/-- Whether a code point can join the one before it: as a mark, or as the second part of a pair. -/
def joinsBack (n : Nat) : Bool :=
  0x300 ≤ n && (classOf t n != 0 || (0x1161 ≤ n && n ≤ 0x1175) || (0x11A8 ≤ n && n ≤ 0x11C2) ||
    t.decompositions.any fun d => d.isComposed && d.parts.getLast? == some n)

/-- Puts a breaker where a run of code points that join would pass the limit. `count` is the length
of the run so far, counted in decomposed code points. -/
def breakRuns : Nat → List Nat → List Nat
  | _, [] => []
  | count, n :: ns =>
    let parts := decompose t n
    let leading := (parts.takeWhile (joinsBack t)).length
    if leading == 0 then
      n :: breakRuns (parts.reverse.takeWhile (joinsBack t)).length ns
    else if markLimit < count + leading then breaker :: n :: breakRuns leading ns
    else n :: breakRuns (count + leading) ns

def insertMark (m : Nat × Nat) : List (Nat × Nat) → List (Nat × Nat)
  | [] => [m]
  | x :: xs => if m.1 < x.1 then m :: x :: xs else x :: insertMark m xs

/-- Sorts every run of marks by class, keeping the order of equals. Items are pairs of class and
code point; `run` is the sorted run so far. -/
def reorder : List (Nat × Nat) → List (Nat × Nat) → List (Nat × Nat)
  | run, [] => run
  | run, x :: xs => if x.1 == 0 then run ++ x :: reorder [] xs else reorder (insertMark x run) xs

/-- Composes behind a starter. `marks` are the marks kept since the starter, newest first. A code
point is blocked from the starter by a mark of the same or a greater class between them. -/
def compose (starter : Nat) (marks : List (Nat × Nat)) : List (Nat × Nat) → List Nat
  | [] => starter :: (marks.reverse.map Prod.snd)
  | x :: xs =>
    let free := match marks with
      | [] => true
      | m :: _ => m.1 < x.1
    match if free then pair? t starter x.2 else none with
    | some c => compose c marks xs
    | none =>
      if x.1 == 0 then starter :: (marks.reverse.map Prod.snd) ++ compose x.2 [] xs
      else compose starter (x :: marks) xs

/-- Composition of a sorted list; marks before the first starter stay as they are. -/
def composeAll : List (Nat × Nat) → List Nat
  | [] => []
  | x :: xs => if x.1 == 0 then compose t x.2 [] xs else x.2 :: composeAll xs

def composedCodes (ns : List Nat) : List Nat :=
  composeAll t (reorder [] (((breakRuns t 0 ns).flatMap (decompose t)).map fun n =>
    (classOf t n, n)))

/-! ### Bytes that are not UTF-8 -/

/-- Stands for a byte that is no part of a code point: it has no class and no decomposition and it
is in no pair. -/
def strayCode (b : UInt8) : Nat := 0x110000 + b.toNat

/-- The length of the sequence that a byte opens. -/
def expectedLength (b : UInt8) : Nat :=
  if b < 0xC2 || 0xF8 ≤ b then 1 else if b < 0xE0 then 2 else if b < 0xF0 then 3 else 4

/-- The code points of a text and the bytes between them. Where the text ends before a sequence can
be complete, the rest of it is taken as bytes. -/
def codesOf : List Rune → List Nat
  | [] => []
  | r :: rs =>
    if r.isStray then
      let rest := (r :: rs).flatMap Rune.bytes
      if rest.length < expectedLength (rest.headD 0) then rest.map strayCode
      else r.bytes.map strayCode ++ codesOf rs
    else r.code :: codesOf rs

def textOfCode (n : Nat) : Text :=
  if 0x110000 ≤ n then ⟨[UInt8.ofNat (n - 0x110000)]⟩ else Text.ofCode n

end Composition

open Composition in
/-- The canonical form of a text. -/
def Text.composed (t : Text) : Text :=
  if t.isAscii then t else Text.concat ((composedCodes tables (codesOf t.runes)).map textOfCode)

end UnitCheck
