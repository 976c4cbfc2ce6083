import UnitCheck.Data.Codec
import UnitCheck.Proofs.Data.Latest
import UnitCheck.Proofs.Data.Pack

/-!
# Codecs read what they write

`c.Reads a b` says that a codec reads `b` where `a` was written, provided that there was room for
`a`. Mostly `b` is `a` itself (`Faithful`); it differs where files hold less than the value does, as
for maps, of which only the newest entries are written.

There is one lemma for each way to build a codec, and `Faithful` is found by instances. Records are
read field by field: a field `Sets` what was written of it, and `Codec.reads_record` puts the fields
of a record together. If each field is of a common form and its codec is faithful, so is the record
(`Codec.faithful_record`); the facts on other fields are listed in the order in which they are
written. -/

namespace UnitCheck

open List Pack

theorem mapM_map_eq_some {α β γ : Type} {f : β → Option γ} {g : α → β} {h : α → γ} {xs : List α}
    (hf : ∀ x ∈ xs, f (g x) = some (h x)) : (xs.map g).mapM f = some (xs.map h) := by
  induction xs with
  | nil => rfl
  | cons x xs ih =>
    have htail := ih fun y hy => hf y (mem_cons_of_mem x hy)
    rw [map_cons, mapM_cons, hf x mem_cons_self, htail]
    rfl

theorem Text.isEmpty_iff {t : Text} : t.isEmpty = true ↔ t = .empty := by
  obtain ⟨bs⟩ := t
  simp [isEmpty, empty]

namespace Codec

variable {α β : Type} {c : Codec α} {a b : α}

/-- If there is room for `a`, then what it is written as is read as `b`. -/
def Reads (c : Codec α) (a b : α) : Prop := (c.encode a).Fits → c.decode? (c.encode a) = some b

/-- Whatever there is room for is read as it was written. -/
class Faithful (c : Codec α) : Prop where
  reads : ∀ a, c.Reads a a

theorem Reads.decode_bytes (h : c.Reads a b) (hfits : (c.encode a).Fits) (rest : List UInt8) :
    ((Pack.decode? ((c.encode a).encode ++ rest)).bind fun (p, _) => c.decode? p) = some b := by
  rw [decode?_encode hfits]
  exact h hfits

/-! ## Simple values -/

instance faithful_uint8 : uint8.Faithful :=
  ⟨fun n _ => by simp [uint8, toUInt8?, ofUInt8, toWord?]⟩

instance faithful_uint16 : uint16.Faithful :=
  ⟨fun n _ => by simp [uint16, toUInt16?, ofUInt16, toWord?]⟩

instance faithful_uint32 : uint32.Faithful :=
  ⟨fun n _ => by simp [uint32, toUInt32?, ofUInt32, toWord?]⟩

instance faithful_word : word.Faithful := ⟨fun _ hfits => congrArg some (Nat.mod_eq_of_lt hfits.2)⟩

instance faithful_bool : bool.Faithful := ⟨fun _ _ => rfl⟩

instance faithful_text : text.Faithful := ⟨fun _ _ => rfl⟩

theorem reads_map {f : α → β} {g : β → α} {x : β} (h : c.Reads (g x) b) :
    (c.map f g).Reads x (f b) :=
  fun hfits => congrArg (Option.map f) (h hfits)

theorem faithful_map [c.Faithful] {f : α → β} {g : β → α}
    (hfg : ∀ x, f (g x) = x := by intro; rfl) :
    (c.map f g).Faithful := ⟨fun x => by
  have hreads := reads_map (f := f) (Faithful.reads (c := c) (g x))
  rwa [hfg] at hreads⟩

instance faithful_ident {k : IdKind} : (ident : Codec (Id k)).Faithful := faithful_map

/-! ## Lists and values that may be left out -/

theorem reads_items {xs : List α} (h : ∀ x ∈ xs, c.Reads x x) :
    (items c).Reads (some xs) (some xs) := by
  intro hfits
  have hread (x) (hx : x ∈ xs) : c.decode? (c.encode x) = some (id x) :=
    h x hx (fitsList_iff.1 hfits.2 _ (mem_map_of_mem hx))
  simp only [items, ofItems, toItems?, mapM_map_eq_some hread, map_id]
  rfl

instance faithful_items [c.Faithful] : (items c).Faithful := ⟨fun
  | none => fun _ => rfl
  | some _ => reads_items fun x _ => Faithful.reads x⟩

instance faithful_list [c.Faithful] : (list c).Faithful := faithful_map

theorem reads_none : (optional c).Reads none none := fun _ => rfl

theorem reads_some (h : c.Reads a b) (hne : c.encode a ≠ .nil) :
    (optional c).Reads (some a) (some b) := by
  intro hfits
  simp only [optional, h hfits, Option.map_some]

/-! ## Maps -/

theorem reads_idMap [c.Faithful] {k : IdKind} (es : List (Id k × α)) :
    (idMap c).Reads es (Id.latest es).reverse := by
  intro hfits
  have hread : ((Id.latest es).map fun e => (ident.encode e.1, c.encode e.2)).mapM
      (fun e : Pack × Pack => do return (← ident.decode? e.1, ← c.decode? e.2)) =
        some ((Id.latest es).map id) :=
    mapM_map_eq_some fun e he => by
      have hentry := fitsEntries_iff.1 hfits.2 _ (mem_map_of_mem he)
      rw [faithful_ident.reads e.1 hentry.1, Faithful.reads e.2 hentry.2]
      rfl
  simp only [idMap]
  rw [hread, map_id]
  rfl

/-! ## Values inside of values -/

/-- Reading goes as deep as needed if a packed value is as deep as the value is, and if it makes no
difference which codec of sufficient depth is taken. -/
theorem reads_byDepth {c : Nat → Codec α} {depth : α → Nat}
    (hdepth : depth a ≤ ((c (depth a)).encode a).depth)
    (h : ∀ n, depth a ≤ n → (c n).Reads a b ∧ (c n).encode a = (c (depth a)).encode a) :
    (byDepth c depth).Reads a b := by
  intro hfits
  obtain ⟨hreads, hencode⟩ := h _ hdepth
  unfold Reads at hreads
  rw [hencode] at hreads
  exact hreads hfits

/-! ## Records -/

def RecordField.Sets (f : RecordField α) (a x y : α) : Prop :=
  match f.write a with
  | none => y = x
  | some p => p.Fits → f.read p x = some y

variable {get : α → β} {set : α → β → α} {d : Codec β} {x y z : α} {u : β} {name : String}

theorem sets_field (h : d.Reads (get a) u) : (field name d get set).Sets a x (set x u) :=
  fun hfits => by simp only [field, h hfits, Option.map_some]

theorem sets_fieldUnless {isOmitted : β → Bool} (h : isOmitted (get a) = false → d.Reads (get a) u)
    (homitted : isOmitted (get a) = true → set x u = x) :
    (fieldUnless isOmitted name d get set).Sets a x (set x u) := by
  unfold RecordField.Sets fieldUnless
  dsimp only
  cases hom : isOmitted (get a) with
  | true => exact homitted hom
  | false => exact fun hfits => congrArg (Option.map fun v => set x v) (h hom hfits)

/-- Fields set one after the other. -/
inductive SetsAll (a : α) : List (RecordField α) → α → α → Prop
  | nil (x : α) : SetsAll a [] x x
  | cons {f : RecordField α} {fields : List (RecordField α)} {x y z : α} :
    f.Sets a x y → SetsAll a fields y z → SetsAll a (f :: fields) x z

namespace SetsAll

variable {fields : List (RecordField α)}

theorem plain [d.Faithful] (h : SetsAll a fields (set x (get a)) z) :
    SetsAll a (field name d get set :: fields) x z := .cons (sets_field (Faithful.reads _)) h

theorem reads (hreads : d.Reads (get a) u) (h : SetsAll a fields (set x u) z) :
    SetsAll a (field name d get set :: fields) x z := .cons (sets_field hreads) h

/-- A field that is left out for one value only, which it has already. -/
theorem omitted [d.Faithful] {isOmitted : β → Bool} {zero : β}
    (hzero : ∀ u, isOmitted u = true → u = zero) (h : SetsAll a fields (set x (get a)) z)
    (hx : set x zero = x := by rfl) :
    SetsAll a (fieldUnless isOmitted name d get set :: fields) x z :=
  .cons (sets_fieldUnless (fun _ => Faithful.reads _) fun hom => by rw [hzero _ hom, hx]) h

theorem idUnlessZero {k : IdKind} {get : α → Id k} {set : α → Id k → α}
    (h : SetsAll a fields (set x (get a)) z) (hx : set x 0 = x := by rfl) :
    SetsAll a (Codec.idUnlessZero name get set :: fields) x z := by
  refine omitted (fun i hi => ?_) h hx
  have hindex : i.index = 0 := by simpa [Id.isValid] using hi
  exact congrArg Id.mk hindex

theorem unlessEmpty {γ : Type} {d : Codec (List γ)} [d.Faithful] {get : α → List γ}
    {set : α → List γ → α} (h : SetsAll a fields (set x (get a)) z) (hx : set x [] = x := by rfl) :
    SetsAll a (fieldUnless List.isEmpty name d get set :: fields) x z :=
  omitted (fun _ => isEmpty_iff.1) h hx

theorem ifPresent {get : α → Option β} {set : α → Option β → α}
    (hreads : ∀ y ∈ get a, d.Reads y y) (h : SetsAll a fields (set x (get a)) z)
    (hne : ∀ y ∈ get a, d.encode y ≠ .nil := by nofun) (hx : set x none = x := by rfl) :
    SetsAll a (fieldUnless Option.isNone name (optional d) get set :: fields) x z := by
  refine .cons (sets_fieldUnless (fun _ => ?_) fun hom => by
    rw [Option.isNone_iff_eq_none.1 hom, hx]) h
  cases hy : get a with
  | none => exact reads_none
  | some y => exact reads_some (hreads y hy) (hne y hy)

end SetsAll

variable {start : α} {fields : List (RecordField α)}

theorem find?_name
    (hnodup : (fields.map fun f => Text.ofString f.name).Nodup) {f : RecordField α}
    (hf : f ∈ fields) :
    fields.find? (fun g => Text.ofString g.name == Text.ofString f.name) = some f := by
  induction fields with
  | nil => cases hf
  | cons g fields ih =>
    rw [map_cons, nodup_cons] at hnodup
    rcases mem_cons.1 hf with rfl | hf
    · rw [List.find?_cons_of_pos (by simp)]
    · have hne : Text.ofString g.name ≠ .ofString f.name := fun heq =>
        hnodup.1 (heq ▸ mem_map_of_mem hf)
      rw [List.find?_cons_of_neg (by simpa using hne)]
      exact ih hnodup.2 hf

def written (fields : List (RecordField α)) (a : α) : List (Text × Pack) :=
  fields.filterMap fun f => (f.write a).map fun p => (Text.ofString f.name, p)

theorem encode_record (start : α) (fields : List (RecordField α)) (a : α) :
    (record start fields).encode a = .map ((written fields a).map fun e => (.str e.1, e.2)) := by
  simp only [record, written, map_filterMap]
  congr
  funext f
  cases f.write a <;> rfl

theorem record?_written (names : List String) (es : List (Text × Pack)) :
    record? names (.map (es.map fun e => (.str e.1, e.2))) = some ⟨es⟩ := by
  have hread : (es.map fun e => (.str e.1, e.2)).mapM
      (fun e : Pack × Pack => (e.1.toText?).map fun t => (t, e.2)) = some (es.map id) :=
    mapM_map_eq_some fun _ _ => rfl
  simp only [record?]
  rw [hread, map_id]
  rfl

theorem mem_encode_record {f : RecordField α} (hf : f ∈ fields) {p : Pack}
    (hp : f.write a = some p) : (str (Text.ofString f.name), p) ∈
      fields.filterMap fun g => (g.write a).map fun q => (str (Text.ofString g.name), q) :=
  mem_filterMap.2 ⟨f, hf, by rw [hp]; rfl⟩

theorem readFields_of_setsAll {fields all : List (RecordField α)}
    (hfind : ∀ f ∈ fields, all.find? (fun g => Text.ofString g.name == Text.ofString f.name) =
      some f)
    (hfits : ∀ f ∈ fields, ∀ p, f.write a = some p → p.Fits) (h : SetsAll a fields x y) :
    readFields all (written fields a) x = some y := by
  induction h with
  | nil => rfl
  | @cons f fields x y z hsets _ ih =>
    have hrest := ih (fun g hg => hfind g (mem_cons_of_mem f hg))
      fun g hg => hfits g (mem_cons_of_mem f hg)
    unfold RecordField.Sets at hsets
    unfold written
    cases hwrite : f.write a with
    | none =>
      rw [hwrite] at hsets
      rw [filterMap_cons_none (by rw [hwrite]; rfl), ← hsets]
      exact hrest
    | some p =>
      rw [hwrite] at hsets
      have hread := hsets (hfits f mem_cons_self p hwrite)
      rw [filterMap_cons_some (by rw [hwrite]; rfl)]
      simp only [readFields, hfind f mem_cons_self, hread]
      exact hrest

abbrev Named (names : List String) : Prop := (names.map Text.ofString).Nodup

theorem reads_record (h : SetsAll a fields start b)
    (hnamed : Named (fields.map RecordField.name) := by decide) :
    (record start fields).Reads a b := by
  intro hfits
  have hnodup : (fields.map fun f => Text.ofString f.name).Nodup := by
    rwa [Named, map_map] at hnamed
  calc (record start fields).decode? ((record start fields).encode a)
      = (record? (fields.map RecordField.name) ((record start fields).encode a)).bind
          fun r => readFields fields r.fields start := rfl
    _ = readFields fields (written fields a) start := by
      rw [encode_record, record?_written, Option.bind_some]
    _ = some b := readFields_of_setsAll (fun f hf => find?_name hnodup hf)
      (fun f hf p hp => (fitsEntries_iff.1 hfits.2 _ (mem_encode_record hf hp)).2) h

theorem faithful_record
    (h : ∀ a, SetsAll a fields start a := by
      intro
      repeat' first
        | exact .nil _
        | refine .plain ?_
        | refine .idUnlessZero ?_
        | refine .unlessEmpty ?_
        | refine .ifPresent (fun _ _ => Faithful.reads _) ?_)
    (hnamed : Named (fields.map RecordField.name) := by decide) : (record start fields).Faithful :=
  ⟨fun a => reads_record (h a) hnamed⟩

theorem depth_lt_encode_record (f : RecordField α)
    (hf : f ∈ fields) {p : Pack} (hp : f.write a = some p) :
    p.depth < ((record start fields).encode a).depth :=
  Nat.lt_succ_of_le (depth_le_depthEntries (mem_encode_record hf hp))

/-- A record is written as a map, so it never looks like nothing. -/
theorem encode_record_ne_nil : (record start fields).encode a ≠ .nil := nofun

end Codec

end UnitCheck
