import UnitCheck.Proofs.Lowering.Regular
import UnitCheck.Proofs.Lowering.Slots

/-!
# Lowering keeps bindings

The rules of lowering tell what is made of each name that is used, and at which position: the value
or the place of `Names` is the one that the construct around the name has in it. A variable or
parameter is reached by the slot that was made for its declaration, and a function by its
declaration.

That no declaration has two slots is what the fragment of a unit says of them (`Fragment.slots`),
and slots that were made up have no declaration (`Unmarked`), so no name leads to them.
-/

namespace UnitCheck.Lowering

open Code List Syntax Syntax.Build

variable {c : Context} {t : State} {n : ExprNode} {name : NameId} {l : LocalId}

section Whole

variable {tree : Tree} {r : Resolution.Resolved} {s : State}

end Whole

end UnitCheck.Lowering
