import UnitCheck.Data.JsonReader
import UnitCheck.Id

/-!
# Lenient access to JSON

Documents written by hand leave out what is not needed. So what is missing, or of another type than
asked for, counts as zero, empty or false; of two members of one name the later counts; and a number
that does not fit wraps around.
-/

namespace UnitCheck.Json

def get (j : Json) (k : String) : Json :=
  match j with
  | .obj ms => ((ms.reverse.find? fun m => m.1 == Text.ofString k).map Prod.snd).getD .null
  | _ => .null

def has (j : Json) (k : String) : Bool :=
  match j with
  | .obj ms => ms.any fun m => m.1 == Text.ofString k
  | _ => false

def items : Json → List Json
  | .arr xs => xs
  | _ => []

def nth (j : Json) (i : Nat) : Json := (j.items[i]?).getD .null

def text : Json → Text
  | .str t => t
  | _ => .empty

def isTrue : Json → Bool
  | .bool b => b
  | _ => false

def isNull : Json → Bool
  | .null => true
  | _ => false

/-- A number cut to an integer. What lies beyond 64 bits is the least integer of them. -/
def toInt : Json → Int
  | .number t =>
    let p := Parts.ofText t
    let n := p.magnitude
    if Nat.pow 2 63 ≤ n then -(Nat.pow 2 63 : Int) else if p.isNegative then -(n : Int) else n
  | _ => 0

def toBits (j : Json) (bits : Nat) : Nat := (j.toInt % Nat.pow 2 bits).toNat

def toWord (j : Json) : UInt32 := UInt32.ofNat (j.toBits 32)

def toByte (j : Json) : UInt8 := UInt8.ofNat (j.toBits 8)

def toId {k : IdKind} (j : Json) : Id k := .ofWord j.toWord

mutual

/-- How deep a value nests: enough fuel for a walk that goes down by a member or item at each
step. -/
def depth : Json → Nat
  | .arr xs => itemsDepth xs + 1
  | .obj ms => membersDepth ms + 1
  | _ => 1

def itemsDepth : List Json → Nat
  | [] => 0
  | x :: xs => max (depth x) (itemsDepth xs)

def membersDepth : List (Text × Json) → Nat
  | [] => 0
  | (_, v) :: ms => max (depth v) (membersDepth ms)

end

/-! ### Writing -/

/-- A text; one that is not UTF-8 is given by its bytes. -/
def ofText (t : Text) : Json :=
  if t.toString?.isSome then .str t else .object [field "hex" (.str (Hex.encode t.bytes))]

def ofId {k : IdKind} (i : Id k) : Json := ofNat i.index

def record (members : List (String × Json)) : Json := .object (members.map some)

end UnitCheck.Json
