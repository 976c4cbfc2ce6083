import UnitCheck.Span
import UnitCheck.Text.Path

/-!
# Source files

The texts that spans point into. Files are numbered from one in the order in which they are added,
and contents are kept byte for byte. `SourceFiles.position` turns an offset into a line and a
column, both counted from one; columns count bytes.
-/

namespace UnitCheck

structure SourceFile where
  path : Text
  content : Text
deriving DecidableEq

/-- A place in a file as people count it. Line zero is nowhere. -/
structure Position where
  line : UInt32
  column : UInt32
deriving DecidableEq

namespace SourceFile

def newline : UInt8 := 10

/-- The offsets of the line ends in a list of bytes whose first byte has offset `off`. -/
def lineEndsFrom (off : Nat) : List UInt8 → List Nat
  | [] => []
  | b :: bs => if b = newline then off :: lineEndsFrom (off + 1) bs else lineEndsFrom (off + 1) bs

def lineEnds (f : SourceFile) : List Nat := lineEndsFrom 0 f.content.bytes

/-- The number of entries below `x` in a sorted array, by halving the entries from `lo` to `hi` at
most `fuel` times. -/
def lowerBound (a : Array Nat) (x : Nat) : Nat → Nat → Nat → Nat
  | 0, lo, _ => lo
  | fuel + 1, lo, hi =>
    if lo < hi then
      let mid := (lo + hi) / 2
      if (a[mid]?).any (· < x) then lowerBound a x fuel (mid + 1) hi else lowerBound a x fuel lo mid
    else lo

/-- The place of an offset: the line is one more than the number of line ends before it, and the
column counts from the start of that line. -/
def position (f : SourceFile) (off : UInt32) : Position :=
  let ends := f.lineEnds.toArray
  let line := lowerBound ends off.toNat ends.size 0 ends.size
  let start : UInt32 := if line = 0 then 0 else UInt32.ofNat ((ends[line - 1]?).getD 0) + 1
  ⟨UInt32.ofNat (line + 1), off - start + 1⟩

/-- Line `n` without its end, which starts behind the end of the line before it. There is one line
more than there are line ends, and no others. -/
def line (f : SourceFile) (n : Nat) : Text :=
  let ends := f.lineEnds
  if n = 0 || ends.length + 1 < n then .empty
  else
    let start := if n = 1 then 0 else (ends[n - 2]?).getD 0 + 1
    let stop := (ends[n - 1]?).getD f.content.size
    if f.content.size ≤ start then .empty else ⟨(f.content.bytes.take stop).drop start⟩

end SourceFile

structure SourceFiles where
  files : Array SourceFile

namespace SourceFiles

def empty : SourceFiles := ⟨#[]⟩

def size (fs : SourceFiles) : Nat := fs.files.size

/-- Adds a file and gives its number. The same path twice makes two files. -/
def add (fs : SourceFiles) (path content : Text) : SourceFiles × Nat :=
  (⟨fs.files.push ⟨Path.clean path, content⟩⟩, fs.files.size + 1)

def get? (fs : SourceFiles) (id : UInt32) : Option SourceFile :=
  if id = 0 then none else fs.files[id.toNat - 1]?

/-- The places of both ends of a span, at line zero if there is no such file. -/
def resolve (fs : SourceFiles) (s : Span) : Position × Position :=
  match fs.get? s.file with
  | none => (⟨0, 0⟩, ⟨0, 0⟩)
  | some f => (f.position s.start, f.position s.stop)

end SourceFiles

end UnitCheck
