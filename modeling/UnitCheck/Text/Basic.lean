/-!
# Texts

A `Text` is a string of bytes. Names, paths, messages and file contents are UTF-8 almost always,
but a unit file can hold any bytes at all and they must come back unchanged, so nothing here
assumes an encoding. String literals stand for their UTF-8 bytes.

Texts are ordered byte by byte (`Text.lt`), which is the order in which reports sort them.
-/

namespace UnitCheck

structure Text where
  bytes : List UInt8
deriving DecidableEq, Inhabited

namespace Text

def ofString (s : String) : Text := ⟨s.toUTF8.data.toList⟩

instance : Coe String Text := ⟨ofString⟩

def empty : Text := ⟨[]⟩

def append (a b : Text) : Text := ⟨a.bytes ++ b.bytes⟩

instance : Append Text := ⟨append⟩

@[simp] theorem bytes_append (a b : Text) : (a ++ b).bytes = a.bytes ++ b.bytes := rfl

def isEmpty (t : Text) : Bool := t.bytes.isEmpty

def size (t : Text) : Nat := t.bytes.length

def ofByte (b : UInt8) : Text := ⟨[b]⟩

def concat (ts : List Text) : Text := ⟨ts.flatMap Text.bytes⟩

def join (sep : Text) (ts : List Text) : Text := concat (ts.intersperse sep)

def times (n : Nat) (t : Text) : Text := concat (List.replicate n t)

def ofNat (n : Nat) : Text := ofString (toString n)

def ofInt (n : Int) : Text := ofString (toString n)

def padLeft (width : Nat) (fill : UInt8) (t : Text) : Text :=
  ⟨List.replicate (width - t.size) fill ++ t.bytes⟩

def padRight (width : Nat) (fill : UInt8) (t : Text) : Text :=
  ⟨t.bytes ++ List.replicate (width - t.size) fill⟩

def take (n : Nat) (t : Text) : Text := ⟨t.bytes.take n⟩

def drop (n : Nat) (t : Text) : Text := ⟨t.bytes.drop n⟩

def startsWith (t head : Text) : Bool := head.bytes.isPrefixOf t.bytes

def endsWith (t tail : Text) : Bool := tail.bytes.isSuffixOf t.bytes

/-- The text without `tail` at its end, or unchanged if it does not end so. -/
def dropTail (t tail : Text) : Text :=
  if t.endsWith tail then t.take (t.size - tail.size) else t

/-- The text without `head` at its start, or unchanged if it does not start so. -/
def dropHead (t head : Text) : Text :=
  if t.startsWith head then t.drop head.size else t

/-- Byte order: a proper beginning comes first. -/
def cmp (a b : Text) : Ordering := go a.bytes b.bytes
where
  go : List UInt8 → List UInt8 → Ordering
    | [], [] => .eq
    | [], _ :: _ => .lt
    | _ :: _, [] => .gt
    | x :: xs, y :: ys => if x < y then .lt else if y < x then .gt else go xs ys

instance : Ord Text := ⟨cmp⟩

def le (a b : Text) : Bool := (cmp a b).isLE

/-- Parts between the bytes equal to `b`; one more part than there are such bytes. -/
def splitOn (b : UInt8) (t : Text) : List Text := (go t.bytes).map Text.mk
where
  go : List UInt8 → List (List UInt8)
    | [] => [[]]
    | x :: xs =>
      if x = b then [] :: go xs
      else match go xs with
        | [] => [[x]]
        | p :: ps => (x :: p) :: ps

/-- The position of the first occurrence of a non-empty `part`. -/
def find? (t part : Text) : Option Nat := go t.bytes 0
where
  go : List UInt8 → Nat → Option Nat
    | [], n => if part.bytes.isEmpty then some n else none
    | x :: xs, n => if part.bytes.isPrefixOf (x :: xs) then some n else go xs (n + 1)

def contains (t part : Text) : Bool := (t.find? part).isSome

def isAscii (t : Text) : Bool := t.bytes.all (· < 128)

def toString? (t : Text) : Option String := String.fromUTF8? ⟨t.bytes.toArray⟩

end Text

end UnitCheck
