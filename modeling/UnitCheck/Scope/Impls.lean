import UnitCheck.Id
import UnitCheck.Span

/-!
# Trait implementations

Which blocks implement which trait, in the order in which they come.
-/

namespace UnitCheck

structure Implementation where
  trait : DeclId
  target : TypeExprId
  targetDecl : DeclId
  stmt : StmtId
  span : Span
deriving DecidableEq

structure Implementations where
  items : List Implementation
deriving DecidableEq

namespace Implementations

def empty : Implementations := ⟨[]⟩

def add (s : Implementations) (i : Implementation) : Implementations := ⟨s.items ++ [i]⟩

def ofTrait (s : Implementations) (trait : DeclId) : List Implementation :=
  s.items.filter fun i => i.trait == trait

def traits (s : Implementations) : List DeclId :=
  (s.items.map Implementation.trait).eraseDups.mergeSort fun a b => a.index ≤ b.index

def size (s : Implementations) : Nat := s.items.length

end Implementations

end UnitCheck
