import UnitCheck.Text.Cluster

/-!
# Width on the screen

How many cells of a terminal a text takes: none for control characters and marks, two for wide
characters, one for the rest. Characters of ambiguous width take one. A cluster of code points is
as wide as its first code point that takes any room.
-/

namespace UnitCheck

namespace Width

def markRanges : CodeRanges := CodeRanges.ofWords "
300+6F 114+4 364+8 40D 4 EF D+1 65C+2 720 31+1E 9D+8 24D+3F 2D1+20 BFF+2 EF+1F 29A+1 75D5+3 2+9 21+1
51+1 1EF+11 552F+F 3CE 179+4 B31+1 9A+A 32+3 37B+1 3A+1 2A+6 4+4 577C+4 640C+2D 3+16 21F+4 4+5 9+7
3+6 1F+3 95+2 DBC+6 2+10 3+6 2+1 2+4 65 841+6"

/-- Format characters, surrogates and non-characters, beyond the first 768 code points. -/
def hiddenRanges : CodeRanges := CodeRanges.ofWords "
70F 10FC+3 7FD+4 19+6 3C+5 B791+7FF 1F00 FA+2 3+1"

def wideRanges : CodeRanges := CodeRanges.ofWords "
1100+5F 11BB+1 E+1 BF+3 4 3 20A+1 16+1 33+B 2C 14 E 9+1 12+1 6+1 9 6 16 8+1 2 5 3 8 5+1 1D 24 2 5+2
2 3E+2 19 F 35C+1 34 5 32B+19 2+58 D+D5 1B+B 5+3E 3+55 3+66 6+2A 2+5D 2+53 D+2E 2+27 9+1B6F 41+568C
4+36 49A+1C 284+2BA3 215D+1FF 311+9 17+22 2+12 2+3 96+5F 80+6 6FFA+4 C+1 F+17F7 9+4D5 2B+8 22E8+3
2+6 2+1 2+122 10 1E+2 3 F+3 9+18B 3D09 CB BF 3+9 66+2 E+2B 5+8 8+1 F+5 9B+20 D+8 2+45 2+15 D+2A 5+4
D+10 4 4+46 2 2+BA 3+3E E+3 2+17 13 1B+1 E 57+54 31+45 7 4+2 3+2 5+3 C+1 8+8 E4+B 5 11C+2E 2+9 2+B8
71+C 4+8 8+2D 2+6 9+D 5+8 8+8 508+FFFD 3+FFFD"

def narrowRanges : CodeRanges := CodeRanges.ofWords "27E6+7 198+1"

def ofCode (n : Nat) : Nat :=
  if n < 0x20 then 0
  else if (0x7F ≤ n && n ≤ 0x9F) || n == 0xAD then 0
  else if n < 0x300 then 1
  else if narrowRanges.has n then 1
  else if hiddenRanges.has n || markRanges.has n then 0
  else if wideRanges.has n then 2
  else 1

/-- The cells a cluster takes: those of its first code point that takes any. -/
def ofCluster (t : Text) : Nat :=
  ((t.runes.map fun r => ofCode r.code).find? (0 < ·)).getD 0

end Width

def Text.width (t : Text) : Nat := ((Cluster.clusters t).map Width.ofCluster).foldr (· + ·) 0

end UnitCheck
