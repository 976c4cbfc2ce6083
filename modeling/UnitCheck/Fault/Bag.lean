import UnitCheck.Fault.Basic

/-!
# Bags of faults

A bag keeps faults in the order in which they come, up to a limit; a fault beyond the limit is
only counted. A limit of zero is none.
-/

namespace UnitCheck

structure Bag where
  items : Array Fault
  limit : Nat
  dropped : Int

namespace Bag

def empty (limit : Nat) : Bag := ⟨#[], limit, 0⟩

def add (b : Bag) (f : Fault) : Bag × Bool :=
  if 0 < b.limit ∧ b.limit ≤ b.items.size then ({ b with dropped := b.dropped + 1 }, false)
  else ({ b with items := b.items.push f }, true)

def ofItems (items : List Fault) (dropped : Int) : Bag := ⟨items.toArray, 0, dropped⟩

def size (b : Bag) : Nat := b.items.size

def hasFatal (b : Bag) (threshold : Severity) : Bool :=
  b.items.any fun f => f.severity.isFatal threshold

def count (b : Bag) (c : FaultCode) : Nat := (b.items.filter fun f => f.code == c).size

end Bag

end UnitCheck
