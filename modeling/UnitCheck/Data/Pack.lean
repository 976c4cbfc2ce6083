import UnitCheck.Text.Basic

/-!
# Packed values

The binary form of units and type tables: self-describing values with one byte of header for small
sizes and longer headers for larger ones. `Pack.encode` writes sizes in the shortest header that
holds them and numbers in the width they have; `Pack.decode?` reads every header the format knows
and leaves what follows the value.

Records are maps from field names to values, or plain lists of the values of all fields;
`Pack.record?` takes both.
-/

namespace UnitCheck

inductive Pack
  | nil
  | bool (b : Bool)
  /-- A number written in its header byte: 0 to 127, or -32 to -1. -/
  | small (b : UInt8)
  /-- An unsigned number in 1, 2, 4 or 8 bytes. -/
  | uint (width : Nat) (n : Nat)
  /-- A signed number in 1, 2, 4 or 8 bytes, as its two's complement. -/
  | int (width : Nat) (n : Nat)
  /-- A floating point number in 4 or 8 bytes. -/
  | float (bytes : List UInt8)
  | str (t : Text)
  | bin (bytes : List UInt8)
  | list (items : List Pack)
  | map (entries : List (Pack × Pack))
  /-- Data of a kind foreign to the format. -/
  | ext (bytes : List UInt8)

namespace Pack

/-! ### Writing -/

def bigEndian (n : Nat) : Nat → List UInt8
  | 0 => []
  | width + 1 => UInt8.ofNat (n / Nat.pow 256 width) :: bigEndian n width

/-- The shortest header for a size: in the header byte, or behind one of three longer headers. A
code of zero means that there is no such header. -/
def header (small limit : Nat) (code8 code16 code32 : UInt8) (n : Nat) : List UInt8 :=
  if n < limit then [UInt8.ofNat (small + n)]
  else if n < Nat.pow 2 8 ∧ code8 ≠ 0 then code8 :: bigEndian n 1
  else if n < Nat.pow 2 16 then code16 :: bigEndian n 2
  else code32 :: bigEndian n 4

def strHeader (n : Nat) : List UInt8 := header 0xA0 32 0xD9 0xDA 0xDB n
def binHeader (n : Nat) : List UInt8 := header 0 0 0xC4 0xC5 0xC6 n
def listHeader (n : Nat) : List UInt8 := header 0x90 16 0 0xDC 0xDD n
def mapHeader (n : Nat) : List UInt8 := header 0x80 16 0 0xDE 0xDF n

def uintCode (width : Nat) : UInt8 :=
  match width with
  | 1 => 0xCC
  | 2 => 0xCD
  | 4 => 0xCE
  | _ => 0xCF

def intCode (width : Nat) : UInt8 :=
  match width with
  | 1 => 0xD0
  | 2 => 0xD1
  | 4 => 0xD2
  | _ => 0xD3

mutual

def encode : Pack → List UInt8
  | .nil => [0xC0]
  | .bool false => [0xC2]
  | .bool true => [0xC3]
  | .small b => [b]
  | .uint w n => uintCode w :: bigEndian n w
  | .int w n => intCode w :: bigEndian n w
  | .float bs => (if bs.length = 4 then 0xCA else 0xCB) :: bs
  | .str t => strHeader t.size ++ t.bytes
  | .bin bs => binHeader bs.length ++ bs
  | .list xs => listHeader xs.length ++ encodeList xs
  | .map es => mapHeader es.length ++ encodeEntries es
  | .ext bs => bs

def encodeList : List Pack → List UInt8
  | [] => []
  | x :: xs => encode x ++ encodeList xs

def encodeEntries : List (Pack × Pack) → List UInt8
  | [] => []
  | (k, v) :: es => encode k ++ encode v ++ encodeEntries es

end

/-! ### Reading -/

def readNumber (width : Nat) (bs : List UInt8) : Option (Nat × List UInt8) :=
  if bs.length < width then none
  else some ((bs.take width).foldl (fun n b => n * 256 + b.toNat) 0, bs.drop width)

def readBytes (n : Nat) (bs : List UInt8) : Option (List UInt8 × List UInt8) :=
  if bs.length < n then none else some (bs.take n, bs.drop n)

inductive Header
  | value (p : Pack)
  | uint (width : Nat)
  | int (width : Nat)
  | float (width : Nat)
  | str (n : Nat)
  | strSized (width : Nat)
  | binSized (width : Nat)
  | list (n : Nat)
  | listSized (width : Nat)
  | map (n : Nat)
  | mapSized (width : Nat)
  | ext (n : Nat)
  | extSized (width : Nat)
  | unknown

def Header.ofByte (b : UInt8) : Header :=
  let n := b.toNat
  if n < 0x80 ∨ 0xE0 ≤ n then .value (.small b)
  else if n < 0x90 then .map (n - 0x80)
  else if n < 0xA0 then .list (n - 0x90)
  else if n < 0xC0 then .str (n - 0xA0)
  else match n with
    | 0xC0 => .value .nil
    | 0xC2 => .value (.bool false)
    | 0xC3 => .value (.bool true)
    | 0xC4 => .binSized 1
    | 0xC5 => .binSized 2
    | 0xC6 => .binSized 4
    | 0xC7 => .extSized 1
    | 0xC8 => .extSized 2
    | 0xC9 => .extSized 4
    | 0xCA => .float 4
    | 0xCB => .float 8
    | 0xCC => .uint 1
    | 0xCD => .uint 2
    | 0xCE => .uint 4
    | 0xCF => .uint 8
    | 0xD0 => .int 1
    | 0xD1 => .int 2
    | 0xD2 => .int 4
    | 0xD3 => .int 8
    | 0xD4 => .ext 1
    | 0xD5 => .ext 2
    | 0xD6 => .ext 4
    | 0xD7 => .ext 8
    | 0xD8 => .ext 16
    | 0xD9 => .strSized 1
    | 0xDA => .strSized 2
    | 0xDB => .strSized 4
    | 0xDC => .listSized 2
    | 0xDD => .listSized 4
    | 0xDE => .mapSized 2
    | 0xDF => .mapSized 4
    | _ => .unknown

mutual

/-- Reads one value. Every value takes a byte at least, so the number of bytes bounds both the
nesting and the number of values, and is enough fuel. -/
def read : Nat → List UInt8 → Option (Pack × List UInt8)
  | 0, _ => none
  | _, [] => none
  | fuel + 1, b :: bs =>
    match Header.ofByte b with
    | .value p => some (p, bs)
    | .uint w => (readNumber w bs).map fun (n, r) => (.uint w n, r)
    | .int w => (readNumber w bs).map fun (n, r) => (.int w n, r)
    | .float w => (readBytes w bs).map fun (x, r) => (.float x, r)
    | .str n => (readBytes n bs).map fun (x, r) => (.str ⟨x⟩, r)
    | .strSized w => do
      let (n, r) ← readNumber w bs
      let (x, r) ← readBytes n r
      pure (.str ⟨x⟩, r)
    | .binSized w => do
      let (n, r) ← readNumber w bs
      let (x, r) ← readBytes n r
      pure (.bin x, r)
    | .list n => (readList fuel n bs).map fun (xs, r) => (.list xs, r)
    | .listSized w => do
      let (n, r) ← readNumber w bs
      let (xs, r) ← readList fuel n r
      pure (.list xs, r)
    | .map n => (readEntries fuel n bs).map fun (es, r) => (.map es, r)
    | .mapSized w => do
      let (n, r) ← readNumber w bs
      let (es, r) ← readEntries fuel n r
      pure (.map es, r)
    | .ext n => (readBytes (n + 1) bs).map fun (x, r) => (.ext (b :: x), r)
    | .extSized w => do
      let (n, r) ← readNumber w bs
      let (x, r) ← readBytes (n + 1) r
      pure (.ext (b :: bs.take w ++ x), r)
    | .unknown => none

def readList : Nat → Nat → List UInt8 → Option (List Pack × List UInt8)
  | 0, _, _ => none
  | _, 0, bs => some ([], bs)
  | fuel + 1, n + 1, bs => do
    let (x, r) ← read fuel bs
    let (xs, r) ← readList fuel n r
    pure (x :: xs, r)

def readEntries : Nat → Nat → List UInt8 → Option (List (Pack × Pack) × List UInt8)
  | 0, _, _ => none
  | _, 0, bs => some ([], bs)
  | fuel + 1, n + 1, bs => do
    let (k, r) ← read fuel bs
    let (v, r) ← read fuel r
    let (es, r) ← readEntries fuel n r
    pure ((k, v) :: es, r)

end

def decode? (bs : List UInt8) : Option (Pack × List UInt8) := read (2 * bs.length + 2) bs

/-! ### Depth -/

mutual

/-- How deep a value is nested; one that holds no others has depth one. -/
def depth : Pack → Nat
  | .list xs => depthList xs + 1
  | .map es => depthEntries es + 1
  | _ => 1

def depthList : List Pack → Nat
  | [] => 0
  | x :: xs => max (depth x) (depthList xs)

def depthEntries : List (Pack × Pack) → Nat
  | [] => 0
  | (_, v) :: es => max (depth v) (depthEntries es)

end

/-! ### Reading fields -/

def toWord? (bits : Nat) : Pack → Option Nat
  | .nil => some 0
  | .small b =>
    some (if b < 0x80 then b.toNat else (Nat.pow 2 bits - (256 - b.toNat)) % Nat.pow 2 bits)
  | .uint _ n => some (n % Nat.pow 2 bits)
  | .int w n =>
    let wide := if n < Nat.pow 2 (8 * w - 1) then n else Nat.pow 2 64 - (Nat.pow 2 (8 * w) - n)
    some (wide % Nat.pow 2 bits)
  | _ => none

def toUInt8? (p : Pack) : Option UInt8 := (p.toWord? 8).map UInt8.ofNat
def toUInt16? (p : Pack) : Option UInt16 := (p.toWord? 16).map UInt16.ofNat
def toUInt32? (p : Pack) : Option UInt32 := (p.toWord? 32).map UInt32.ofNat

def toBool? : Pack → Option Bool
  | .nil => some false
  | .bool b => some b
  | _ => none

def toText? : Pack → Option Text
  | .nil => some .empty
  | .str t => some t
  | .bin bs => some ⟨bs⟩
  | _ => none

/-- A list of values read by `f`, or nothing for a missing list. -/
def toItems? {α : Type} (f : Pack → Option α) : Pack → Option (Option (List α))
  | .nil => some none
  | .list xs => (xs.mapM f).map some
  | _ => none

/-- A record: for each field name the values given for it, in order. -/
structure Record where
  fields : List (Text × Pack)

/-- The fields of a value that stands for a record with the given field names. -/
def record? (names : List String) : Pack → Option Record
  | .nil => some ⟨[]⟩
  | .map es => do
    let fields ← es.mapM fun (k, v) => (k.toText?).map fun t => (t, v)
    pure ⟨fields⟩
  | .list [] => some ⟨[]⟩
  | .list xs =>
    if xs.length = names.length then some ⟨(names.map Text.ofString).zip xs⟩ else none
  | _ => none

def ofItems {α : Type} (f : α → Pack) : Option (List α) → Pack
  | none => .nil
  | some xs => .list (xs.map f)

def ofUInt8 (n : UInt8) : Pack := .uint 1 n.toNat
def ofUInt16 (n : UInt16) : Pack := .uint 2 n.toNat
def ofUInt32 (n : UInt32) : Pack := .uint 4 n.toNat

end Pack

end UnitCheck
