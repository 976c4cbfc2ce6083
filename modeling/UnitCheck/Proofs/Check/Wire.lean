import UnitCheck.Check.Cache
import UnitCheck.Proofs.Code.Wire
import UnitCheck.Proofs.Data.Digest
import UnitCheck.Proofs.Source.Unit

/-!
# Verdicts are read as they were written

Files hold of a verdict what does not belong to one run, and of its maps the newest entries
(`Verdict.stored`). That is what is found in the entry of a cache that the verdict was stored in
(`Cache.readEntry_entryBytes`).
-/

namespace UnitCheck

open Codec

/-! ## Types of a unit -/

namespace Typing.Typed

/-- What is read of a map: its newest entries, in order. -/
def latest {k : IdKind} {α : Type} (es : List (Id k × α)) : List (Id k × α) :=
  Id.latest (Id.latest es).reverse

/-- The types that are read. The number of variables is not written. -/
def stored (t : Typed) : Typed :=
  ⟨latest t.declTypes, latest t.valueTypes, latest t.localTypes,
    (latest (t.copies.map fun v => (v, ()))).map Prod.fst, t.faults, 0⟩

end Typing.Typed

namespace Check

theorem reads_copiesCodec (vs : List ValueId) :
    copiesCodec.Reads vs ((Typing.Typed.latest (vs.map fun v => (v, ()))).map Prod.fst) :=
  have : Faithful ⟨fun _ : Unit => .map [], fun _ => some ()⟩ := ⟨fun _ _ => rfl⟩
  reads_map (reads_idMap _)

theorem reads_typesCodec {k : IdKind} (es : List (Id k × TypeId)) :
    typesCodec.Reads es (Typing.Typed.latest es) :=
  reads_map (reads_idMap es)

theorem reads_typedCodec (t : Typing.Typed) : typedCodec.Reads t t.stored := reads_record <|
  .reads (reads_typesCodec _) <| .reads (reads_typesCodec _) <| .reads (reads_typesCodec _) <|
  .reads (reads_copiesCodec _) <| .plain <| .nil _

/-! ## Verdicts -/

def LoweredCode.stored (c : LoweredCode) : LoweredCode := ⟨c.module.stored, c.faults⟩

theorem reads_digestCodec {d : Digest} (h : d.bytes.length = Digest.size) :
    digestCodec.Reads d d := by
  intro _
  simp only [digestCodec, Pack.toText?, Option.bind_some, Digest.parse_toText h]
  rfl

namespace Verdict

/-- The verdict that is read. -/
def stored (v : Verdict) : Verdict :=
  { v with
    code := v.code.map LoweredCode.stored
    typed := v.typed.map Typing.Typed.stored
    isCached := false
    timings := .empty
    files := .empty }

/-- A cache can hold the verdict: it has all faults, the digest has its size, the types are in
order, and there is room for the entry. -/
structure Fits (v : Verdict) : Prop where
  dropped : v.dropped = 0
  digest : v.digest.bytes.length = Digest.size
  types : ∀ c ∈ v.code, c.module.types.Writable
  entry : (Cache.entryCodec.encode ⟨Cache.version, some v⟩).Fits

theorem Fits.reads {v : Verdict} (h : v.Fits) : codec.Reads v v.stored := by
  have hcode : (optional codeCodec).Reads v.code (v.code.map .stored) := by
    cases hc : v.code with
    | none => exact reads_none
    | some c =>
      have hreads : codeCodec.Reads c c.stored :=
        reads_record <| .reads (Code.Module.reads (h.types c hc)) <| .plain <| .nil _
      exact reads_some hreads encode_record_ne_nil
  have htyped : (optional typedCodec).Reads v.typed (v.typed.map .stored) := by
    cases v.typed with
    | none => exact reads_none
    | some t => exact reads_some (reads_typedCodec t) encode_record_ne_nil
  have hdropped : (v.dropped == 0) = true := beq_iff_eq.2 h.dropped
  exact reads_record <|
    .plain <| .reads (reads_digestCodec h.digest) <| .reads hcode <| .reads htyped <| .plain <|
    .cons (sets_fieldUnless (u := v.dropped) (fun hne => nomatch hdropped.symm.trans hne)
      fun _ => by rw [h.dropped]; rfl) <| .plain <| .nil _

end Verdict

theorem Cache.readEntry_entryBytes {v : Verdict} (h : v.Fits) :
    readEntry (entryBytes v) = .ok (some v.stored) := by
  have hreads : entryCodec.Reads ⟨version, some v⟩ ⟨version, some v.stored⟩ := reads_record <|
    .plain <| .reads (reads_some h.reads encode_record_ne_nil) <| .nil _
  have hbytes := hreads.decode_bytes h.entry []
  rw [List.append_nil] at hbytes
  unfold readEntry entryBytes
  rw [hbytes]
  rfl

end Check

end UnitCheck
