/-!
# Identifiers

Nodes, names, declarations, scopes, types and the rest are kept in tables and named by their
position. An `Id` carries what kind of thing it names, so that positions of different tables do
not mix. Position zero means "nothing" in every table that counts from one.

Files hold identifiers as 32-bit words and put no bound on them, so an identifier may name nothing
at all; looking it up says so.
-/

namespace UnitCheck

inductive IdKind
  | name | expr | stmt | typeExpr | payload | decl | scope | type | var
  | block | line | value | local_
deriving DecidableEq

structure Id (kind : IdKind) where
  index : Nat
deriving DecidableEq

namespace Id

variable {k : IdKind}

instance : Inhabited (Id k) := ⟨⟨0⟩⟩

instance (n : Nat) : OfNat (Id k) n := ⟨⟨n⟩⟩

instance : LT (Id k) := ⟨fun a b => a.index < b.index⟩

instance (a b : Id k) : Decidable (a < b) := inferInstanceAs (Decidable (a.index < b.index))

/-- Whether the identifier can name anything; zero cannot. -/
def isValid (i : Id k) : Bool := i.index != 0

def ofWord (w : UInt32) : Id k := ⟨w.toNat⟩

def toWord (i : Id k) : UInt32 := UInt32.ofNat i.index

/-- What was noted last for each identifier, of notes newest first, in the order of identifiers. -/
def latest {α : Type} (notes : List (Id k × α)) : List (Id k × α) :=
  (notes.map Prod.fst).eraseDups.mergeSort (fun a b => a.index ≤ b.index) |>.filterMap fun i =>
    (notes.lookup i).map fun a => (i, a)

end Id

abbrev NameId := Id .name
/-- Syntax tree nodes. -/
abbrev ExprId := Id .expr
abbrev StmtId := Id .stmt
abbrev TypeExprId := Id .typeExpr
/-- A record of a node, in the table of the node's kind. -/
abbrev PayloadId := Id .payload
abbrev DeclId := Id .decl
abbrev ScopeId := Id .scope
abbrev TypeId := Id .type
abbrev VarId := Id .var
/-- Lowered code: blocks, statements, expressions and local slots. -/
abbrev BlockId := Id .block
abbrev LineId := Id .line
abbrev ValueId := Id .value
abbrev LocalId := Id .local_

def ScopeId.root : ScopeId := ⟨0⟩

/-- The word that stands for "no scope" in files, where zero is the root. -/
def ScopeId.noneWord : UInt32 := 0xFFFFFFFF

def ScopeId.ofWord? (w : UInt32) : Option ScopeId :=
  if w = ScopeId.noneWord then none else some (.ofWord w)

def ScopeId.toWord? (s : Option ScopeId) : UInt32 :=
  match s with
  | none => ScopeId.noneWord
  | some s => s.toWord

end UnitCheck
