import UnitCheck.Text.Basic

/-!
# TOML documents

A document is a table of tables. Three facts are kept beside it: which keys are written in it and in
which order; which tables exist only because a longer key runs through them, for such a table may be
defined once later on; and which keys hold lists, for they may be given again.
-/

namespace UnitCheck.Toml

/-- A value. The exact values of floats and times are not kept. -/
inductive Value
  | text (t : Text)
  | int (n : Int)
  | float
  | bool (b : Bool)
  | time
  | list (items : List Value)
  | table (entries : List (Text × Value))
  /-- Tables that are written one by one; there is one at least. -/
  | tables (ts : List (List (Text × Value)))

abbrev Entries := List (Text × Value)

abbrev Key := List Text

namespace Key

def isBare (b : UInt8) : Bool :=
  (65 ≤ b && b ≤ 90) || (97 ≤ b && b ≤ 122) || (48 ≤ b && b ≤ 57) || b == 95 || b == 45

def escape (b : UInt8) : List UInt8 :=
  match b with
  | 34 => [92, 34]
  | 92 => [92, 92]
  | 8 => [92, 98]
  | 9 => [92, 116]
  | 10 => [92, 110]
  | 12 => [92, 102]
  | 13 => [92, 114]
  | b =>
    let digit := fun n : Nat => UInt8.ofNat (if n < 10 then 48 + n else 87 + n)
    if b < 32 || b == 127 then
      [92, 117, 48, 48, digit (b.toNat / 16), digit (b.toNat % 16)]
    else [b]

def showPart (t : Text) : Text :=
  if !t.isEmpty && t.bytes.all isBare then t else "\"" ++ ⟨t.bytes.flatMap escape⟩ ++ "\""

def toText (k : Key) : Text := Text.join "." (k.map showPart)

end Key

namespace Value

/-- The table to look into: of several the last one. -/
def inside? : Value → Option Entries
  | table es => some es
  | tables ts => ts.getLast?
  | _ => none

end Value

namespace Entries

def find? (es : Entries) : Key → Option Value
  | [] => some (.table es)
  | [k] => es.lookup k
  | k :: ks => ((es.lookup k).bind Value.inside?).bind fun sub => find? sub ks

def change (f : Entries → Entries) : Key → Entries → Entries
  | [], es => f es
  | k :: ks, es => es.map fun (k', v) =>
    if k' == k then
      (k', match v with
        | .table sub => .table (change f ks sub)
        | .tables ts => .tables (ts.dropLast ++ (ts.getLast?.map (change f ks)).toList)
        | v => v)
    else (k', v)

def put (k : Text) (v : Value) (es : Entries) : Entries :=
  if (es.lookup k).isSome then es.map fun (k', old) => (k', if k' == k then v else old)
  else es ++ [(k, v)]

end Entries

structure Document where
  entries : Entries
  /-- Tables that exist only on the way to others. -/
  implied : List Key
  /-- Keys that hold lists. -/
  lists : List Key
  /-- The keys that are written, in order. -/
  order : Array Key

namespace Document

def empty : Document := ⟨[], [], [], #[]⟩

def imply (d : Document) (k : Key) : Document := { d with implied := k :: d.implied }

def settle (d : Document) (k : Key) : Document := { d with implied := d.implied.filter (· != k) }

def markList (d : Document) (k : Key) : Document := { d with lists := k :: d.lists }

def write (d : Document) (k : Key) : Document := { d with order := d.order.push k }

/-- Defines a key in a table that exists. It may be there already if it holds a list, which is then
replaced, or if it is a table that was only implied, which then stays. -/
def define (d : Document) (table : Key) (k : Text) (v : Value) : Option Document := do
  let es ← (d.entries.find? table).bind Value.inside?
  let full := table ++ [k]
  let set := fun d : Document =>
    { d with entries := Entries.change (Entries.put k v) table d.entries }
  if (es.lookup k).isNone then return set d
  if d.lists.contains full then return set (d.settle full)
  if d.implied.contains full then return d.settle full
  none

/-- Makes sure that the tables with the first `n` parts of a key exist, for every `n`. -/
def reach (d : Document) (key : Key) : List Nat → Option Document
  | [] => some d
  | n :: ns =>
    let table := key.take n
    match d.entries.find? table with
    | some v => if v.inside?.isSome then d.reach key ns else none
    | none => do
      let d := d.imply table
      let above := table.dropLast
      let last ← table.getLast?
      reach
        { d with entries := Entries.change (Entries.put last (.table [])) above d.entries } key ns

def enter (d : Document) (key : Key) (isOneOf : Bool) : Option Document := do
  let d ← d.reach key ((List.range key.length).drop 1)
  let above := key.dropLast
  let last ← key.getLast?
  if isOneOf then
    let ts ← match d.entries.find? key with
      | none => some []
      | some (.tables ts) => some ts
      | some _ => none
    return { d with entries :=
      Entries.change (Entries.put last (.tables (ts ++ [[]]))) above d.entries }
  else d.define above last (.table [])

/-- Implies and defines the tables that a key of several parts runs through, behind those of a
table. -/
def enterParts (d : Document) (table : Key) : Key → Option Document
  | [] => some d
  | k :: ks => do
    let inner := table ++ [k]
    let d ← (d.imply inner).enter inner false
    d.enterParts inner ks

end Document

end UnitCheck.Toml
