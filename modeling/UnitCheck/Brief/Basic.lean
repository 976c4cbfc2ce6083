import UnitCheck.Data.Lenient
import UnitCheck.Fault.Basic
import UnitCheck.Modifier
import UnitCheck.Source.Files

/-!
# The brief notation

Units, tables and what the checker finds out about them can be written and shown as short JSON
documents. A span is a list of numbers there: two of them lie in file 1, three name the file first.
A fault shows its severity and code as text. Values are read from documents, and shown as such, by
coercion.
-/

namespace UnitCheck.Brief

/-! ### Showing -/

class Out (α : Type) where
  out : α → Json

export Out (out)

section

variable {α : Type} [Out α]

instance : Out Json := ⟨id⟩
instance : Out Text := ⟨.ofText⟩
instance : Out Nat := ⟨.ofNat⟩
instance : Out Int := ⟨.ofInt⟩
instance : Out Bool := ⟨.bool⟩
instance {k : IdKind} : Out (Id k) := ⟨.ofId⟩
instance : Out (List α) := ⟨fun xs => .arr (xs.map out)⟩
instance : Out (Option α) := ⟨fun x => (x.map out).getD .null⟩

scoped instance : CoeOut α Json := ⟨out⟩

end

def row (xs : List Json) : Json := .arr xs

def record (ms : List (String × Json)) (more : List (String × Json) := []) : Json :=
  .record (ms.append more)

def memberIf (c : Bool) (k : String) (v : Json) : List (String × Json) := if c then [(k, v)] else []

instance : Out Span := ⟨fun s => [s.file.toNat, s.start.toNat, s.stop.toNat]⟩

instance : Out Note := ⟨fun n => record [("span", n.span), ("msg", n.message)]⟩

instance : Out Fault := ⟨fun f =>
  record [("sev", f.severity.toText), ("code", f.code.id), ("msg", f.message), ("span", f.span)]
    (memberIf (!f.notes.isEmpty) "notes" f.notes)⟩

/-! ### Reading -/

/-- A part of a document: a member of an object by its name, an item of a list by its place. -/
inductive Key
  | member (k : String)
  | item (i : Nat)

scoped instance : Coe String Key := ⟨.member⟩

instance {n : Nat} : OfNat Key n := ⟨.item n⟩

def part (j : Json) : Key → Json
  | .member k => j.get k
  | .item i => j.nth i

def word (j : Json) : String := j.text.toString?.getD ""

scoped instance : CoeFun Json fun _ => Key → Json := ⟨part⟩
scoped instance : Coe Json Text := ⟨Json.text⟩
scoped instance : Coe Json Int := ⟨Json.toInt⟩
scoped instance : Coe Json UInt32 := ⟨Json.toWord⟩
scoped instance : Coe Json UInt8 := ⟨Json.toByte⟩
scoped instance : Coe Json Bool := ⟨Json.isTrue⟩
scoped instance {k : IdKind} : Coe Json (Id k) := ⟨Json.toId⟩

scoped instance : Coe Json Span := ⟨fun
  | .arr [a, b] => ⟨1, a, b⟩
  | .arr [f, a, b] => ⟨f, a, b⟩
  | _ => .zero⟩

scoped instance : Coe Json Modifier := ⟨fun
  | .str t => .ofText t
  | j => ⟨j⟩⟩

scoped instance : Coe Json Severity := ⟨fun
  | .number t => ⟨Json.number t⟩
  | j => .ofSetting j⟩

scoped instance : Coe Json FaultCode := ⟨fun j => ⟨.ofNat (j.toBits 16)⟩⟩

scoped instance : Coe Json (List Note) := ⟨fun j => j.items.map fun j => ⟨j "span", j "msg"⟩⟩

scoped instance : Coe Json Fault := ⟨fun j => ⟨j "sev", j "code", j "msg", j "span", j "notes"⟩⟩

/-- Bytes given as hexadecimal digits or as text. -/
def content (j : Json) : Text :=
  if j.has "hex" then
    let digits := (j "hex").text.bytes
    match Hex.decode digits digits.length with
    | .ok bs => ⟨bs⟩
    | .error _ => .empty
  else j "text"

end UnitCheck.Brief
