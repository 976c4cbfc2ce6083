import UnitCheck.Source.Unit
import UnitCheck.Syntax.Build
import UnitCheck.Proofs.Syntax.Wire

/-!
# Units are read as they were written

The bytes of a unit give back the unit, whatever stands behind them (`SourceUnit.decode_encode`).
The identifiers of names, the annotations of the tree and the lists that are missing rather than
empty are all part of what is given back.
-/

namespace UnitCheck

open Codec

/-! ## Faults -/

instance : Note.codec.Faithful := faithful_record
instance : Severity.codec.Faithful := faithful_map
instance : FaultCode.codec.Faithful := faithful_map
instance : Fault.codec.Faithful := faithful_record

namespace SourceUnit

/-! ## Units -/

instance : bytes.Faithful := ⟨fun _ _ => rfl⟩

instance : fileCodec.Faithful := faithful_record fun _ =>
  .plain <| .omitted (fun _ => Text.isEmpty_iff.1) <| .nil _

def parts (u : SourceUnit) : Parts := ⟨u.name, u.files, some u.tree, u.faults⟩

/-- A file can hold the unit: the scopes of its tree can be written, and there is room for all of
it. -/
@[mk_iff] structure Fits (u : SourceUnit) : Prop where
  scopes : u.tree.ScopesFit
  room : (partsCodec.encode u.parts).Fits

instance (u : SourceUnit) : Decidable u.Fits := decidable_of_iff' _ u.fits_iff

theorem reads_parts {u : SourceUnit} (hnames : u.tree.names.Reachable)
    (hscopes : u.tree.ScopesFit) : partsCodec.Reads u.parts u.parts :=
  reads_record <| .plain <| .unlessEmpty <|
    .reads (reads_some (hscopes.reads hnames) nofun) <| .unlessEmpty <| .nil _

/-- A unit that a file can hold is read from its bytes as it was. So it is also written as the same
bytes again, and every name has the identifier that it had. -/
theorem decode_encode {u : SourceUnit} (hnames : u.tree.names.Reachable) (hfits : u.Fits)
    (rest : List UInt8) : decode (u.encode ++ rest) = .ok u := by
  have hread := (reads_parts hnames hfits.scopes).decode_bytes hfits.room rest
  unfold decode encode
  rw [show Parts.mk u.name u.files (some u.tree) u.faults = u.parts from rfl, hread]
  rfl

/-- A function with a block of its own that an earlier check has annotated, a source file without
text and a fault of the parser. -/
def checkedUnit : SourceUnit where
  name := "one"
  files := [⟨"one.src", .empty⟩]
  tree :=
    let t := (do
      let body ← Syntax.Build.block .zero []
      let f ← Syntax.Build.func .zero .zero (← Syntax.Build.name "f") [] 0 body .default
      Syntax.Build.pushRoot f).run .empty |>.2
    { t with
      stmts := { t.stmts with funcs := t.stmts.funcs.modify 1 fun r =>
        { r with decl := 17, scope := some ⟨1⟩ } } }
  faults := [.error .unexpectedToken .zero "unexpected ';'"]

theorem decode_encode_checkedUnit :
    checkedUnit.tree.names.Reachable ∧ checkedUnit.Fits ∧
      decode (checkedUnit.encode ++ [0]) = .ok checkedUnit :=
  have hnames : checkedUnit.tree.names.Reachable := .intern "f" .empty
  have hfits : checkedUnit.Fits := by decide +kernel
  ⟨hnames, hfits, decode_encode hnames hfits [0]⟩

end SourceUnit

end UnitCheck
