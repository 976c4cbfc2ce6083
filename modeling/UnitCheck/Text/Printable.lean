import UnitCheck.Text.Ranges

/-!
# Printable characters

Which code points stand for themselves in quoted text: letters, marks, numbers, punctuation and
symbols, and of the blanks the plain space only.
-/

namespace UnitCheck

/-- Letters, marks, numbers, punctuation and symbols beyond the first 128 code points. -/
def printableRanges : CodeRanges := CodeRanges.ofWords "
A1+B 2+2C9 3+5 5+6 2 2+13 2+18C 2+25 3+31 3+2 2+36 9+1A 5+5 12+15 2+BF 2+2F 3+3A 3+64 F+3A 3+30 3+E
2+1B 3 2+A 6+1E A+49 2+A0 2+7 3+1 3+15 2+6 2 4+3 3+8 3+1 3+3 9 5+1 2+4 3+18 3+2 2+5 5+1 3+15 2+6 2+1
2+1 2+1 3 2+4 5+1 3+2 4 8+3 2 8+10 B+2 2+8 2+2 2+15 2+6 2+1 2+4 3+9 2+2 2+2 3 10+3 3+B 8+6 2+2 2+7
3+1 3+15 2+6 2+1 2+4 3+8 3+1 3+2 8+2 5+1 2+4 3+11 B+1 2+5 4+2 2+3 4+1 2 2+1 4+1 4+2 4+B 5+4 4+2 2+3
3 7 F+14 6+C 2+2 2+16 2+F 3+8 2+2 2+3 8+1 2+2 3 3+3 3+9 8+15 2+2 2+16 2+9 2+4 3+8 2+2 2+3 8+1 7+1
2+3 3+9 2+2 D+C 2+2 2+32 2+2 2+5 5+F 3+19 2+2 2+11 4+17 2+8 2 3+6 4 5+5 2 2+7 7+9 3+2 D+39 5+1C 26+1
2 2+4 2+17 2 2+16 3+4 2 2+6 2+9 3+3 21+47 2+23 5+26 2+23 2+E 2+C 26+C5 2 6 3+178 2+3 3+6 2 2+3 3+28
2+3 3+20 2+3 3+6 2 2+3 3+E 2+38 2+3 3+42 3+1F 4+19 7+55 3+5 3+27F 2+1B 4+58 8+15 A+17 A+13 D+C 2+2
2+1 D+5D 3+9 7+9 7+D 2+A 7+58 8+2A 6+45 B+1E 2+B 5+B 5 4+29 3+4 C+2B 5+19 7+A 4+3D 3+40 2+1C 3+A 7+9
7+D 3+1E 32+4C 4+2E 2+73 9+3B 4+E 4+3B 8+2A 3+A 9+2A 6+215 3+5 3+25 3+5 3+7 2 2 2 2+1E 3+34 2+E 2+D
3+5 2+12 3+2 2+8 12+17 9+2E 12+1 3+1A 2+C 4+20 10+20 10+8B 5+296 1A+A 16+713 3+1F 2+15C 6+2C 2 6
3+37 8+1 F+17 A+6 2+6 2+6 2+6 2+6 2+6 2+6 2+6 2+7D 23+19 2+58 D+D5 1B+B 6+3E 2+55 3+66 6+2A 2+5D
2+53 D+2E 2+726C 4+36 A+15B 15+B7 9+CA 6+1 2 2+4 19+3A 4+9 7+37 9+45 9+B 7+73 C+1D 4+4D 2+A 5+20
2+36 A+D 3+9 3+66 19+1B B+5 3+5 3+5 A+6 2+6 2+3B 5+7D 3+9 7+2BA3 D+16 5+30 2105+16D 3+69 27+6 D+4
6+19 2+4 2 2+1 2+1 2+7C 11+1BC 3+35 8 21+29 7+32 2+12 2+3 5+4 2+86 5+BD 4+5 3+5 3+5 3+2 4+6 2+6 E+1
3+B 2+19 2+12 2+1 2+E 3+D 23+7A 6+2 5+2C 4+57 2+C 4 30+2D 83+1C 4+30 10+1B 5+23 A+1D 6+2A 6+1D 2+24
5+D 2B+9D 3+9 7+23 5+23 5+27 9+33 C+B 2+E 2+6 2+1 2+A 2+E 2+6 2+1 44+136 A+15 B+7 19+5 2+29 2+8 46+5
3 2+2B 2+1 4 3+16 2+47 9+8 31+12 2+1 6+20 4+1A 6 41+37 5+13 3+31 2+1 6+7 2+2 2+1C 3+2 5+9 8+8 8+3F
21+26 5+B A+35 4+1C 3+1A 6+19 8+3 D+6 51+48 38+32 E+32 8+2D 9+9 127+1E 2+29 2+2 3+1 4C+2A 9+29 17+19
27+1B 15+16 A+4D 5+23 A+3D 2+4 E+18 8+9 7+34 2+11 9+26 A+5F 2+13 C+11 2+2E 3F+6 2 2+3 2+E 2+A 7+3A
6+9 7+3 2+7 3+1 3+15 2+6 2+1 2+4 2+9 3+1 3+2 3 7 6+6 3+6 4+4 8C+5B 2+4 1F+47 9+9 A7+35 3+25 23+44
C+9 7+C 14+39 7+9 37+1A 3+E 5+16 BA+3B 65+52 D+7 3 3+7 2+1 2+1D 2+1 3+B A+9 47+7 3+2D 3+A 1C+47 9+52
E+48 8+9 F7+8 2+2C 2+D B+1C 4+1F 3+15 2+D 4A+6 2+1 2+2B 4 2+1 2+8 9+9 7+5 2+1 2+24 2+1 2+5 8+9
137+18 8+10 2+28 4+1B 57 10+31 E+39A 67+6E 2+4 C+C3 A4D+62 E+42F 11+15 FAB+246 21BA+238 8+1E 2+9
5+50 2+9 7+1D 3+5 B+45 B+9 2+6 2+14 6+12 2B1+5A 66+4A 5+38 8+10 41+4 C+1 F+17F7 9+4D5 2B+8 22E8+3
2+6 2+1 2+122 10 1E+2 3 F+3 9+18B 905+6A 6+C 4+8 8+9 3+3 1261+2D 3+16 A+73 3D+F5 B+26 3+49 9+6F
16+45 7B+13 D+13 D+56 A+18 88+54 2+46 2+1 3 3+1 3+3 2+B 2 2+6 2+40 2+3 3+7 2+6 2+1B 2+3 2+4 2 4+6
2+153 3+123 3+2BD 10+4 2+E 451+1E 7+5 D6+6 2+10 3+6 2+1 2+4 6+3D 22 71+2C 4+D 3+9 5+1 141+1E 12+39 6
1D1+29 2E7+6 2+3 2+1 2+E 2+C4 3+F 2A+4B 5+9 5+1 312+43 4D+3C C3+3 2+1A 2+1 2 3 2+9 2+3 2 2 7 5 2 2
2+2 2+1 2 3 2 2 2 2 2+1 2 3+3 2+6 2+3 2+3 2 2+9 2+10 6+2 2+4 2+10 35+1 10F+2B 5+63 D+E 3+E 2+E 2+24
B+AD 39+1C E+2B 5+8 8+1 F+5 9B+3D7 5+10 4+C 4+76 5+5E 7+B 5 10+B 5+37 9+9 7+27 9+1D 3+1 4F+153 D+D
3+C 4+8 8+2D 2+6 9+D 5+8 8+8 8+92 2+36 26+9 407+A6DF 21+1039 7+DD 3+1681 F+1D30 C20+21D 5E3+134A
6+105F ADD51+EF"

def isPrintable (n : Nat) : Bool :=
  if n < 0x80 then 0x20 ≤ n && n < 0x7F else printableRanges.has n

end UnitCheck
