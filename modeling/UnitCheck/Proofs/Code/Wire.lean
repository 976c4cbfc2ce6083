import UnitCheck.Code.Wire
import UnitCheck.Proofs.Syntax.Wire
import UnitCheck.Proofs.Ty.Restore

/-!
# Lowered code is read as it was written

Every part of a module is read as it was written, the module itself up to what files do not hold of
it (`Module.stored`).

Places and chains contain themselves. Here the induction is on the place or the chain, for all
codecs that go deep enough.
-/

namespace UnitCheck.Code

open Codec

instance faithful_listCodec {α : Type} {c : Codec α} [c.Faithful] : (listCodec c).Faithful :=
  faithful_map fun xs => by cases xs <;> rfl

instance faithful_tableCodec {α : Type} {c : Codec α} [c.Faithful] : (tableCodec c).Faithful :=
  faithful_map

/-! ## Places and chains -/

namespace PlaceRow

variable {r : PlaceRow} {c c' : Codec Place}

theorem reads (hbase : r.base ≠ .missing → c.Reads r.base r.base) : (codec c).Reads r r :=
  reads_record
    (.plain <| .idUnlessZero <|
      .cons (sets_fieldUnless (fun h => hbase (by simpa using h)) fun h => by rw [eq_of_beq h]) <|
      .idUnlessZero <| .omitted (fun _ => Text.isEmpty_iff.1) <| .nil _)
    (show Named ["kind", "local", "base", "index", "field"] by decide)

theorem encode_congr (h : c.encode r.base = c'.encode r.base) :
    (codec c).encode r = (codec c').encode r := by
  simp only [codec, record, List.filterMap_cons, fieldUnless, h]

theorem depth_lt_encode (h : r.base.depth ≤ (c.encode r.base).depth) :
    r.base.depth < ((codec c).encode r).depth := by
  by_cases hmissing : r.base = .missing
  · have hkind : (uint8.encode r.kind).depth < ((codec c).encode r).depth :=
      depth_lt_encode_record _ List.mem_cons_self rfl
    rw [hmissing]
    exact hkind
  · have hbase : (c.encode r.base).depth < ((codec c).encode r).depth :=
      depth_lt_encode_record
        (fieldUnless (· == .missing) "base" c base ({ · with base := · }))
        (by simp) (by simp [fieldUnless, hmissing])
    exact Nat.lt_of_le_of_lt h hbase

theorem toPlace_ofPlace (p : Place) : toPlaceOrMissing (ofPlace? p) = p := by
  cases p with
  | unknown k =>
    exact congrArg (fun r : Option Place => r.getD .missing) (congrArg some (dif_pos k.2))
  | _ => rfl

end PlaceRow

namespace Place

variable {p : Place}

theorem depth_pos (p : Place) : 0 < p.depth := by
  cases p <;> exact Nat.succ_pos _

theorem base_ofPlace_depth (p : Place) : (PlaceRow.ofPlace p).base ≠ .missing →
    (PlaceRow.ofPlace p).base.depth < p.depth := by
  cases p with
  | missing | slot l | unknown k => exact absurd rfl
  | index b i | deref b | field b t => exact fun _ => .refl

variable {n : Nat}

theorem reads_codecTo (hn : p.depth ≤ n) : (codecTo n).Reads p p := by
  induction n generalizing p with
  | zero => exact absurd hn (Nat.not_le_of_lt p.depth_pos)
  | succ n ih =>
    have hreads : (optional (PlaceRow.codec (codecTo n))).Reads (PlaceRow.ofPlace? p)
        (PlaceRow.ofPlace? p) := by
      cases hp : PlaceRow.ofPlace? p with
      | none => exact reads_none
      | some r =>
        obtain rfl : .ofPlace p = r := by cases p <;> cases hp <;> rfl
        refine reads_some (PlaceRow.reads fun hbase => ih ?_) encode_record_ne_nil
        exact Nat.le_of_lt_succ (Nat.lt_of_lt_of_le (base_ofPlace_depth p hbase) hn)
    have hplace := reads_map (f := PlaceRow.toPlaceOrMissing) hreads
    rwa [PlaceRow.toPlace_ofPlace] at hplace

/-- It makes no difference how much deeper a codec goes than needed. -/
theorem encode_codecTo (hn : p.depth ≤ n) : (codecTo n).encode p = (codecTo p.depth).encode p := by
  have hmissing (n : Nat) : (codecTo n).encode missing = .nil := by cases n <;> rfl
  induction p generalizing n with
  | missing => rw [hmissing, hmissing]
  | slot l | unknown k =>
    cases n with
    | zero => cases hn
    | succ n => exact PlaceRow.encode_congr ((hmissing n).trans (hmissing 0).symm)
  | index b i ih | deref b ih | field b t ih =>
    cases n with
    | zero => cases hn
    | succ n => exact PlaceRow.encode_congr (ih (Nat.le_of_succ_le_succ hn))

theorem depth_le_encode (p : Place) : p.depth ≤ ((codecTo p.depth).encode p).depth := by
  induction p with
  | missing | slot l | unknown k => exact Pack.depth_pos _
  | index b i ih => exact PlaceRow.depth_lt_encode (r := .ofPlace (index b i)) ih
  | deref b ih => exact PlaceRow.depth_lt_encode (r := .ofPlace (deref b)) ih
  | field b t ih => exact PlaceRow.depth_lt_encode (r := .ofPlace (field b t)) ih

instance faithful : codec.Faithful :=
  ⟨fun p => reads_byDepth p.depth_le_encode fun _ hn => ⟨reads_codecTo hn, encode_codecTo hn⟩⟩

end Place

section

variable {c c' : Codec Chain}

theorem ArmRow.reads {r : ArmRow} (h : ∀ x ∈ r.next, c.Reads x x ∧ c.encode x ≠ .nil) :
    (codec c).Reads r r :=
  reads_record
    (.plain <| .idUnlessZero <| .ifPresent (fun x hx => (h x hx).1) (.nil _) fun x hx => (h x hx).2)
    (show Named ["kind", "body", "if"] by decide)

variable {r : ChainRow}

theorem ChainRow.reads (h : ∀ x ∈ r.arm, (ArmRow.codec c).Reads x x) : (codec c).Reads r r :=
  reads_record (.plain <| .plain <| .ifPresent h <| .nil _)
    (show Named ["cond", "body", "else"] by decide)

theorem ChainRow.encode_congr (h : ∀ x ∈ r.arm, ∀ y ∈ x.next, c.encode y = c'.encode y) :
    (codec c).encode r = (codec c').encode r := by
  obtain ⟨cond, body, _ | ⟨kind, body', _ | next⟩⟩ := r
  · rfl
  · rfl
  · have hnext : c.encode next = c'.encode next := h _ rfl next rfl
    simp only [codec, ArmRow.codec, record, List.filterMap_cons, ifPresent, fieldUnless,
      Codec.optional, hnext]

theorem ChainRow.depth_lt_encode {x : ArmRow} (hx : r.arm = some x) {next : Chain}
    (hnext : x.next = some next) : (c.encode next).depth < ((codec c).encode r).depth := by
  have harm : ((ArmRow.codec c).encode x).depth < ((codec c).encode r).depth :=
    depth_lt_encode_record
      (ifPresent "else" (ArmRow.codec c) (·.arm) ({ · with arm := · }))
      (by simp) (by simp [ifPresent, fieldUnless, Codec.optional, hx])
  have hrest : (c.encode next).depth < ((ArmRow.codec c).encode x).depth :=
    depth_lt_encode_record (ifPresent "if" c (·.next) ({ · with next := · }))
      (by simp) (by simp [ifPresent, fieldUnless, Codec.optional, hnext])
  exact Nat.lt_trans hrest harm

end

namespace Chain

variable {x : Chain} {n : Nat}

theorem encode_codecTo_ne_nil (hn : x.depth ≤ n) : (codecTo n).encode x ≠ .nil := by
  cases n with
  | zero => cases x <;> cases hn
  | succ n => nofun

theorem reads_codecTo (hn : x.depth ≤ n) : (codecTo n).Reads x x := by
  induction x generalizing n with
  | last c b | orElse c b e =>
    cases n with
    | zero => cases hn
    | succ n =>
      refine reads_map (ChainRow.reads fun r hr => ArmRow.reads fun y hy => ?_)
      cases hr <;> cases hy
  | orIf c b next ih =>
    cases n with
    | zero => cases hn
    | succ n =>
      have hnext := Nat.le_of_succ_le_succ hn
      refine reads_map (ChainRow.reads fun r hr => ArmRow.reads fun y hy => ?_)
      cases hr
      cases hy
      exact ⟨ih hnext, encode_codecTo_ne_nil hnext⟩

theorem encode_codecTo (hn : x.depth ≤ n) : (codecTo n).encode x = (codecTo x.depth).encode x := by
  induction x generalizing n with
  | last c b | orElse c b e =>
    cases n with
    | zero => cases hn
    | succ n => exact ChainRow.encode_congr (by rintro _ ⟨⟩ _ ⟨⟩)
  | orIf c b next ih =>
    cases n with
    | zero => cases hn
    | succ n =>
      refine ChainRow.encode_congr fun r hr y hy => ?_
      cases hr
      cases hy
      exact ih (Nat.le_of_succ_le_succ hn)

theorem depth_le_encode (x : Chain) : x.depth ≤ ((codecTo x.depth).encode x).depth := by
  induction x with
  | last c b | orElse c b e => exact Pack.depth_pos _
  | orIf c b next ih =>
    exact Nat.lt_of_le_of_lt ih (ChainRow.depth_lt_encode rfl rfl)

instance faithful : codec.Faithful :=
  ⟨fun x => reads_byDepth x.depth_le_encode fun _ hn => ⟨reads_codecTo hn, encode_codecTo hn⟩⟩

end Chain

/-! ## Values, lines and blocks -/

theorem ValueRow.toValue_ofValue (v : Value) : toValue (ofValue v) = v := by
  cases v with
  | broken k => obtain ⟨k, rfl | rfl⟩ := k <;> rfl
  | unknown k => exact dif_pos k.2
  | _ => rfl

theorem LineRow.toLine_ofLine (l : Line) : toLine (ofLine l) = l := by
  cases l with
  | unknown k => exact dif_pos k.2
  | _ => rfl

instance : (uint8.map ItemKind.mk ItemKind.code).Faithful := faithful_map

instance : LiteralRow.codec.Faithful := faithful_record
instance : LoopRow.codec.Faithful := faithful_record

instance ValueRow.faithful : ValueRow.codec.Faithful := faithful_record fun _ =>
  .plain <| .ifPresent (fun _ _ => Faithful.reads _) <| .omitted (fun _ => eq_of_beq) <|
    .idUnlessZero <|
  .omitted (fun _ h => congrArg Syntax.BinaryOp.mk (eq_of_beq h)) <|
  .omitted (fun _ h => congrArg Syntax.UnaryOp.mk (eq_of_beq h)) <|
  .idUnlessZero <| .idUnlessZero <| .idUnlessZero <|
  .omitted (fun _ h => Bool.not_eq_true' _ ▸ h) <| .idUnlessZero <| .unlessEmpty <| .unlessEmpty <|
  .idUnlessZero <| .omitted (fun _ => eq_of_beq) <| .idUnlessZero <| .idUnlessZero <|
  .ifPresent (fun _ _ => Faithful.reads _)
    (.ifPresent (fun _ _ => Faithful.reads _) <| .nil _)
    fun _ _ => Chain.encode_codecTo_ne_nil .refl

instance LineRow.faithful : LineRow.codec.Faithful := faithful_record fun _ =>
  .plain <| .idUnlessZero <| .omitted (fun _ => eq_of_beq) <| .idUnlessZero <| .nil _

instance : Value.codec.Faithful := faithful_map ValueRow.toValue_ofValue
instance : Line.codec.Faithful := faithful_map LineRow.toLine_ofLine
instance : Block.codec.Faithful := faithful_record

instance Local.faithful : Local.codec.Faithful := faithful_record fun _ =>
  .plain <| .idUnlessZero <| .idUnlessZero <|
  .omitted (fun _ h => congrArg Modifier.mk (eq_of_beq h)) <| .nil _

/-! ## Items -/

instance : Param.codec.Faithful := faithful_record
instance : Func.codec.Faithful := faithful_record
instance : Member.codec.Faithful := faithful_record
instance : TypeItem.codec.Faithful := faithful_record
instance : Global.codec.Faithful := faithful_record
instance Item.faithful : Item.codec.Faithful := faithful_record
instance : Impl.codec.Faithful := faithful_record

/-! ## Modules -/

def MarkTable.stored (t : MarkTable) : MarkTable :=
  ⟨(Id.latest t.lines).reverse, (Id.latest t.values).reverse, (Id.latest t.locals).reverse⟩

instance : Spans.codec.Faithful := faithful_record
instance : Marks.codec.Faithful := faithful_map
instance : Counters.codec.Faithful := faithful_record

theorem sets_marksField {k : IdKind} {name : String} {get : MarkTable → List (Id k × Marks)}
    {set : MarkTable → List (Id k × Marks) → MarkTable} {a x : MarkTable} (hx : set x [] = x) :
    (marksField name get set).Sets a x (set x (Id.latest (get a)).reverse) := by
  refine sets_fieldUnless (fun _ => reads_idMap _) fun hempty => ?_
  rw [List.isEmpty_iff.1 hempty, Id.latest_nil]
  exact hx

theorem MarkTable.reads (t : MarkTable) : MarkTable.codec.Reads t t.stored :=
  reads_record <|
    .cons (sets_marksField rfl) <| .cons (sets_marksField rfl) <| .cons (sets_marksField rfl) <|
      .nil _

theorem reads_itemsCodec (es : Array (DeclId × Item)) :
    itemsCodec.Reads es (Id.latest es.toList.reverse).toArray := by
  have hreads := reads_map (f := fun es : List (DeclId × Item) => es.reverse.toArray)
    (g := fun es => es.toList.reverse) (reads_idMap (c := Item.codec) es.toList.reverse)
  rwa [List.reverse_reverse] at hreads

/-- The module that is read. Of items with one declaration and of marks on one node, files hold the
last ones; the index of type declarations is rebuilt. -/
def Module.stored (m : Module) : Module :=
  { m with
    items := (Id.latest m.items.toList.reverse).toArray
    lineMarks := (Id.latest m.lineMarks).reverse
    valueMarks := (Id.latest m.valueMarks).reverse
    localMarks := (Id.latest m.localMarks).reverse
    types := m.types.withIndex (TypeTable.declIndex m.types.types.toList) }

theorem Module.reads {m : Module} (h : m.types.Writable) : Module.codec.Reads m m.stored :=
  have htypes :
    typesCodec.Reads m.types (m.types.withIndex (TypeTable.declIndex m.types.types.toList)) :=
    h.reads
  reads_record <| .reads (reads_itemsCodec _) <| .plain <| .unlessEmpty <| .plain <| .plain <|
    .plain <|
    .plain <| .plain <| .plain <| .reads (MarkTable.reads _) <| .plain <| .reads htypes <| .nil _

end UnitCheck.Code
