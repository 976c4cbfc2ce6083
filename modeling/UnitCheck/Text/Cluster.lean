import UnitCheck.Text.Rune
import UnitCheck.Text.Ranges

/-!
# Character clusters

What a reader takes for one character can be several code points: a letter with its marks, a
syllable of Hangul in parts, a flag, a joined emoji. `clusters` cuts a text into such groups by
the extended grapheme cluster rules. A group takes one cell or two on the screen, however many
code points it has.
-/

namespace UnitCheck.Cluster

inductive Join
  | carriageReturn | lineFeed | control | extend | joiner | regional | prepend | spacing
  | leading | vowel | trailing | syllableOpen | syllableClosed | pictograph | other
deriving DecidableEq

def controlRanges : CodeRanges := CodeRanges.ofWords "
0+9 2+1 2+11 60+20 E 56F 11F2 7FD 3+1 19+6 32+F DE90 F1+B 3435+F 8861+3 14D0+7 C2E86+1F 61+7F F1+E0F"

def extendRanges : CodeRanges := CodeRanges.ofWords "
300+6F 114+6 108+2C 2 2+1 2+1 2 49+A 31+14 11 66+6 3+5 3+1 2+3 24 1F+1A 5C+A 3B+8 A 19+3 2+8 2+2 2+4
2C+2 3D+7 2B+17 2+1F 38 2 5+7 5 4+6 B+1 1E 3B 2 3+3 9 A B+1 1B 3+1 3A 5+1 5+1 3+2 4 1F+1 4 C+1 3A
5+4 2+1 5 15+1 17+5 2 3B 2+1 2+3 9 8+2 B+1 1F 3C 2 D A 29 4 38 2+2 6+2 2+3 8+1 C+1 1E 3B 3 3 4 6+1
8+1 C+1 1D+1 3A+1 2 3+3 9 A B+1 1E 49 5 3+2 2 9 52 3+6 D+7 63 3+8 C+6 4A+1 1C 2 2 38+D 2+4 2+1 6+A
2+23 A 67+3 2+5 2+1 3+1 1A+1 5+2 11+3 E 3+1 7 10 2C0+2 3B3+2 1E+1 1F+1 1F+1 41+1 2+6 9 3+A A 2E+2 2
76+1 23 77+2 5+1 A 7+2 DC+1 3 3B 2+6 2 2 3+7 7+9 3 31+1E 32+3 31+6 2 6 29+8 D+1 21+3 3+1 2+2 39 2+1
4 2+2 3B+7 3+1 99+2 2+C 2+6 5 7 4+1 C7+3F 20D C4+20 BFF+2 8E 61+1F 22B+5 6A+1 75D5+3 2+9 21+1 51+1
111 4 5 1A+1 6 98+1 1B+11 E 27+7 1A+A 2F+2 31 3+3 3+1 28 44+5 3+1 3+1 D 9 30 34 2+2 3+1 6+1 2 2B+1 9
EF 3 5 4F31 2E2+F 11+F 16F+1 25E E3 96+4 687+2 2+1 6+3 29+2 5 A6+1 23E+3 184+1 51+2 47+A 32+3 7C
37+E 2A 3+1 B+2 32+3 3+1 8 3E+2 25+4 2+7 3F D+1 35+8 B+3 3 60+2 3 2+1 7 3 9E 4+7 16+1 3A+1 2 2 17
F+6 4+4 C4+7 3+2 2 18 52 3+5 2 3 2+1 2+1 EC 3+3 7+1 2+1 1C+1 56+7 3 2+1 6B 2 3+5 2 66+2 3+3 2+4
104+8 2+1 F6 B+1 2 5 91+3 3+1 5 21+9 29+5 3+3 9 A+5 3+2 2F+C 2+1 197+6 2+5 2 53+15 3+6 2+1 2+1 7B+5
4 2+1 2+6 2 49+1 4 2 15C+1 C+1 35+4 6 2 14FE 7+E 369B+4 3C+6 419 40+3 52 4CB9+1 1262+2D 3+16 21F 2+2
5+4 9+7 3+6 1F+3 95+2 7BC+36 5+31 9 F 17+4 2+E 551+6 2+10 3+6 2+1 2+4 65 A1+6 178 3E+3 1FD+3 3E1+6
6E+6 AB1+4 C0C21+5F 81+EF"

def prependRanges : CodeRanges := CodeRanges.ofWords "
600+5 D8 32 181+1 51 46C 1036F 10 F5+1 77C 2 F9 4A+5 2BD 1BC"

def spacingRanges : CodeRanges := CodeRanges.ofWords "
903 38 3+2 9+3 2+1 33+1 3C+1 7+1 3+1 37 3B+2 43 3B+2 9 2+1 36+1 3D 7+1 3+1 73 2+1 4+2 2+2 35+2 3E+3
3E+1 3B 2+1 2+1 3+1 2+1 28 F+1 3C+1 6+2 2+2 36+1 4D+1 7+6 14+1 40 80 8B+1 40 B2 A+1 1A+1 2D 691 1F
82 8+7 2+1 15B+3 3+2 5+1 2+5 E1+1 3B 2 16+5 92 37 2+4 2+1 3E 1F 5+1 3 3D 3+2 2 4+1 31+7 9+1 AC 16
8B2C+1 3 59+1 33+F 8F+1 30 31+1 5+1 3+2 6F+1 3+1 19 9E 3+1 6 EE+1 2+1 2+1 2 6414 2 80 2E+2 5+1 74
19+1 3C 31+2 A+1 E 5E+2 4+1 2 AB+2 20+1 3C 2+3 3+1 3+2 15+1 D2+2 9+1 4 6C+1 7 2+1 2 3 EF+1 7+3 3
72+2 9+1 2 6E 2+1 7 70 106+2 A F9+4 2+1 5 3 2 8F+2 9+3 5 55 1E+1 3F 198 F 6B 8 3 D6+4 5+1 2 15F+1 D
31+1 9+1 2 5010+36 69+1 6175 7"

def pictographRanges : CodeRanges := CodeRanges.ofWords "
A9 5 1F8E D D9 17 5B+5 10+1 170+1 D 60 47 1A+A 5+2 C8 E8+1 B A 3B+3 2+5 2+B 2+71 B+75 3+A 2 2 7 4 7
B+1 10 3 5 2 5+2 2 C+4 2E+2 A F F 175+1 1D0+2 14+1 34 5 4DB D 25A 2 1BD67+FF E+2 20 3D+5 D+1 F 3+9
13+38 1C+E B 15 3+8 2+3 A+1B1 6+13D 9+109 31+7F 75+B 56+2A D+3 39+7 B+5 29+7 1F+51 D+2E 2+9 2+1B8
101+3FD"

def joinOf (n : Nat) : Join :=
  if n == 0x0D then .carriageReturn
  else if n == 0x0A then .lineFeed
  else if 0x20 ≤ n && n < 0x7F then .other
  else if controlRanges.has n then .control
  else if n == 0x200D then .joiner
  else if extendRanges.has n then .extend
  else if 0x1F1E6 ≤ n && n ≤ 0x1F1FF then .regional
  else if prependRanges.has n then .prepend
  else if spacingRanges.has n then .spacing
  else if (0x1100 ≤ n && n ≤ 0x115F) || (0xA960 ≤ n && n ≤ 0xA97C) then .leading
  else if (0x1160 ≤ n && n ≤ 0x11A7) || (0xD7B0 ≤ n && n ≤ 0xD7C6) then .vowel
  else if (0x11A8 ≤ n && n ≤ 0x11FF) || (0xD7CB ≤ n && n ≤ 0xD7FB) then .trailing
  else if 0xAC00 ≤ n && n ≤ 0xD7A3 then
    if (n - 0xAC00) % 28 == 0 then .syllableOpen else .syllableClosed
  else if pictographRanges.has n then .pictograph
  else .other

/-- What the rules need to know of the cluster so far: its last code point, whether it ends in a
pictograph followed by extenders only, whether a joiner comes right behind that, and how many
regional indicators end it. -/
structure Context where
  last : Join
  pictographic : Bool
  joined : Bool
  regionals : Nat
deriving DecidableEq

def Context.start (j : Join) : Context :=
  ⟨j, j == .pictograph, false, if j == .regional then 1 else 0⟩

def Context.push (c : Context) (j : Join) : Context :=
  ⟨j, j == .pictograph || (c.pictographic && j == .extend), c.pictographic && j == .joiner,
    if j == .regional then c.regionals + 1 else 0⟩

def Context.joins (c : Context) (j : Join) : Bool :=
  match c.last, j with
  | .carriageReturn, .lineFeed => true
  | .carriageReturn, _ | .lineFeed, _ | .control, _ => false
  | _, .carriageReturn | _, .lineFeed | _, .control => false
  | .leading, .leading | .leading, .vowel | .leading, .syllableOpen
  | .leading, .syllableClosed => true
  | .syllableOpen, .vowel | .syllableOpen, .trailing | .vowel, .vowel | .vowel, .trailing => true
  | .syllableClosed, .trailing | .trailing, .trailing => true
  | _, .extend | _, .joiner | _, .spacing => true
  | .prepend, _ => true
  | .joiner, .pictograph => c.joined
  | .regional, .regional => c.regionals % 2 == 1
  | _, _ => false

/-! ### Pieces

Bytes that are no UTF-8 are cut as their lead bytes announce: a lead byte takes those of its
continuation bytes that are there. A text that ends within a character has a rest, which belongs to
the cluster before it. -/

def announced (b : UInt8) : Nat :=
  if b < 0xC2 then 1 else if b < 0xE0 then 2 else if b < 0xF0 then 3 else if b < 0xF8 then 4 else 1

/-- The pieces of a list of bytes and its rest. Each piece takes a byte at least, so the number of
bytes is enough fuel. -/
def cut : Nat → List UInt8 → List (List UInt8) × List UInt8
  | 0, bs => ([], bs)
  | _, [] => ([], [])
  | fuel + 1, b :: bs =>
    let n := announced b - 1
    let tail := bs.take n
    if tail.length < n then ([], b :: bs)
    else
      let tail := tail.takeWhile fun b => 0x80 ≤ b && b < 0xC0
      let (ps, rest) := cut fuel (bs.drop tail.length)
      ((b :: tail) :: ps, rest)

/-- The joining behaviour of a piece; one that is no character does not join. -/
def joinOfPiece (p : List UInt8) : Join :=
  match Text.runesOf p with
  | [r] => joinOf r.code
  | _ => .other

/-- Goes through the pieces with the current cluster; the last cluster takes the rest. -/
def group (rest : List UInt8) : List (List UInt8) → Context → List UInt8 → List (List UInt8)
  | [], _, cur => [cur ++ rest]
  | p :: ps, c, cur =>
    let j := joinOfPiece p
    if c.joins j then group rest ps (c.push j) (cur ++ p)
    else cur :: group rest ps (.start j) p

def clusters (t : Text) : List Text :=
  match cut t.size t.bytes with
  | ([], []) => []
  | ([], rest) => [⟨rest⟩]
  | (p :: ps, rest) => (group rest ps (.start (joinOfPiece p)) p).map Text.mk

end UnitCheck.Cluster
