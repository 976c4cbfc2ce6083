import UnitCheck.Text.Rune
import UnitCheck.Text.Hex

/-!
# JSON text

The program's own JSON output. Objects keep the order in which their members are given, characters
that could end a script in a web page are escaped, and a byte that is not UTF-8 is written as the
replacement character. `Json.compact` writes one line without blanks, `Json.pretty` indents by two
blanks.
-/

namespace UnitCheck

inductive Json
  | null
  | bool (b : Bool)
  /-- A number, by its text. -/
  | number (t : Text)
  | str (t : Text)
  | arr (items : List Json)
  | obj (members : List (Text × Json))

namespace Json

def ofNat (n : Nat) : Json := .number (Text.ofNat n)

def ofInt (n : Int) : Json := .number (Text.ofInt n)

def orNull (xs : List Json) : Json := if xs.isEmpty then .null else .arr xs

/-- An object with members given as strings; a member may be left out. -/
def object (members : List (Option (String × Json))) : Json :=
  .obj ((members.filterMap id).map fun (k, v) => (Text.ofString k, v))

def field (k : String) (v : Json) : Option (String × Json) := some (k, v)

def fieldIf (c : Bool) (k : String) (v : Json) : Option (String × Json) :=
  if c then some (k, v) else none

/-! ### Strings -/

def escapeRune (r : Rune) : List UInt8 :=
  let letter := fun c : Char => [92, UInt8.ofNat c.toNat]
  let unicode := fun n : Nat => 92 :: 117 :: Hex.digits Hex.digit n 4
  match r.code with
  | 0x22 => letter '"'
  | 0x5C => letter '\\'
  | 0x08 => letter 'b'
  | 0x0C => letter 'f'
  | 0x0A => letter 'n'
  | 0x0D => letter 'r'
  | 0x09 => letter 't'
  | 0x3C | 0x3E | 0x26 | 0x2028 | 0x2029 => unicode r.code
  | n =>
    if n < 0x20 then unicode n
    else if r.isStray then [0xEF, 0xBF, 0xBD]
    else r.bytes

def quote (t : Text) : Text := ⟨34 :: t.runes.flatMap escapeRune ++ [34]⟩

/-! ### Values -/

mutual

def compact : Json → Text
  | .null => "null"
  | .bool b => if b then "true" else "false"
  | .number t => t
  | .str t => quote t
  | .arr xs => "[" ++ Text.join "," (compactItems xs) ++ "]"
  | .obj ms => "\x7b" ++ Text.join "," (compactMembers ms) ++ "\x7d"

def compactItems : List Json → List Text
  | [] => []
  | x :: xs => compact x :: compactItems xs

def compactMembers : List (Text × Json) → List Text
  | [] => []
  | (k, v) :: ms => (quote k ++ ":" ++ compact v) :: compactMembers ms

end

def newline (depth : Nat) : Text := "\n" ++ Text.times depth "  "

mutual

def prettyAt (depth : Nat) : Json → Text
  | .null => "null"
  | .bool b => if b then "true" else "false"
  | .number t => t
  | .str t => quote t
  | .arr [] => "[]"
  | .arr (x :: xs) =>
    "[" ++ Text.join "," (prettyItems (depth + 1) (x :: xs)) ++ newline depth ++ "]"
  | .obj [] => "\x7b\x7d"
  | .obj (m :: ms) =>
    "\x7b" ++ Text.join "," (prettyMembers (depth + 1) (m :: ms)) ++ newline depth ++ "\x7d"

def prettyItems (depth : Nat) : List Json → List Text
  | [] => []
  | x :: xs => (newline depth ++ prettyAt depth x) :: prettyItems depth xs

def prettyMembers (depth : Nat) : List (Text × Json) → List Text
  | [] => []
  | (k, v) :: ms =>
    (newline depth ++ quote k ++ ": " ++ prettyAt depth v) :: prettyMembers depth ms

end

def pretty (j : Json) : Text := prettyAt 0 j

def document (indent : Bool) (j : Json) : Text := (if indent then j.pretty else j.compact) ++ "\n"

end Json

end UnitCheck
