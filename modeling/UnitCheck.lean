import UnitCheck.Brief.Syntax
import UnitCheck.Code.Reader
import UnitCheck.Main
import UnitCheck.Syntax.Layout
import UnitCheck.Syntax.Spans
import UnitCheck.Proofs.Check.Content
import UnitCheck.Proofs.Check.Contexts
import UnitCheck.Proofs.Check.Sharing
import UnitCheck.Proofs.Fault.Golden
import UnitCheck.Proofs.Fault.Marks
import UnitCheck.Proofs.Lowering.Arrays
import UnitCheck.Proofs.Lowering.Bindings
import UnitCheck.Proofs.Lowering.Chains
import UnitCheck.Proofs.Lowering.Forest
import UnitCheck.Proofs.Lowering.Guards
import UnitCheck.Proofs.Lowering.Lines
import UnitCheck.Proofs.Resolution.Scoping
import UnitCheck.Proofs.Scope.Tree
import UnitCheck.Proofs.Trace.Ring
import UnitCheck.Proofs.Typing.Closure
import UnitCheck.Proofs.Typing.Copies
import UnitCheck.Proofs.Typing.General
import UnitCheck.Proofs.Typing.Literals
import UnitCheck.Proofs.Resolution.Declarations
import UnitCheck.Proofs.Resolution.Implementing
