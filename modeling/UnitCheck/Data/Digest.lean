import UnitCheck.Abort
import UnitCheck.Data.Sha256
import UnitCheck.Text.Quoted

/-!
# Digests

A digest names the content of a unit file by its SHA-256 hash. The all-zero digest means that none
was computed.
-/

namespace UnitCheck

structure Digest where
  bytes : List UInt8
deriving DecidableEq

namespace Digest

def size : Nat := 32

def zero : Digest := ⟨List.replicate size 0⟩

def isZero (d : Digest) : Bool := d == zero

def ofContent (bs : List UInt8) : Digest := ⟨Sha256.digest bs⟩

def toText (d : Digest) : Text := Hex.encode d.bytes

inductive Error
  | digits (e : Hex.Error)
  | length (n : Nat)
deriving DecidableEq

/-- The message of an error. Digits that a digest has no room for have none. -/
def Error.message : Error → Option Text
  | digits (.badByte b) =>
    some ("invalid digest: encoding/hex: invalid byte: " ++ codePointLabel b.toNat)
  | digits .oddLength => some "invalid digest: encoding/hex: odd length hex string"
  | digits .overflow => none
  | length n => some ("invalid digest length " ++ Text.ofNat n)

def parse (t : Text) : Except Error Digest :=
  if t.isEmpty then .ok zero
  else match Hex.decode t.bytes size with
    | .error e => .error (.digits e)
    | .ok bs => if bs.length = size then .ok ⟨bs⟩ else .error (.length bs.length)

end Digest

end UnitCheck
