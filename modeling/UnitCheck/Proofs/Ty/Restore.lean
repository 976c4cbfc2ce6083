import UnitCheck.Proofs.Data.Codec
import UnitCheck.Proofs.Ty.Canonical
import UnitCheck.Ty.Label
import UnitCheck.Ty.Wire
import Mathlib.Data.List.Induction
import Mathlib.Tactic.MkIffOfInductiveProp

/-!
# Tables that were written and read

A table is written as its three lists. What is read is the same table but for one thing: the index
of declarations is not written, and it is rebuilt from the entries (`declIndex`). There a
declaration leads to its newest type, with or without modifier, and not to the one without
(`TypeTable.Canonical.named_restored`). Everything that does not use the index is as it was
(`TypeTable.Writable.restore_rows`).
-/

namespace UnitCheck

open Codec

/-! ## Rows -/

variable {ty : Ty}

theorem Ty.ofRow_toRow (h : ∀ k, ty.shape = .plain k → Shape.ofKind k = .plain k) :
    ofRow ty.toRow = ty := by
  obtain ⟨s, m⟩ := ty
  cases s with
  | plain k => simp only [ofRow, toRow, kind, Shape.kind, h k rfl]
  | array s e n => cases s <;> rfl
  | int | uint | float | reference | pointer | optional | named | fn | var => rfl

instance TypeRow.faithful : TypeRow.codec.Faithful :=
  have hzero {n : UInt8} (h : (n == 0) = true) : n = 0 := eq_of_beq h
  faithful_record fun _ => .plain <| .idUnlessZero <| .omitted (fun _ => eq_of_beq) <|
    .omitted (fun _ => hzero) <| .omitted (fun _ h => Bool.not_eq_true' _ ▸ h) <|
    .omitted (fun _ => hzero) <| .omitted (fun _ => hzero) <| .idUnlessZero <|
    .omitted (fun _ => eq_of_beq) <| .nil _

theorem Ty.reads (h : ofRow ty.toRow = ty) : Ty.codec.Reads ty ty := by
  have hreads := reads_map (f := .ofRow) (TypeRow.faithful.reads ty.toRow)
  rwa [h] at hreads

instance Signature.faithful : Signature.codec.Faithful := faithful_record

/-- The reserved signature is written in a way of its own, but it is read as what it is. -/
theorem Signature.reads_listCodec (ss : List Signature) :
    Signature.listCodec.Reads (⟨[], 0⟩ :: ss) (⟨[], 0⟩ :: ss) := by
  intro hfits
  have hrest : (ss.map Signature.codec.encode).mapM Signature.codec.decode? = some (ss.map id) :=
    mapM_map_eq_some fun s hs => Signature.faithful.reads s
      (Pack.fitsList_iff.1 hfits.2 _ (List.mem_cons_of_mem _ (List.mem_map_of_mem hs)))
  rw [List.map_id] at hrest
  simp only [listCodec, list, map, items, Pack.toItems?, List.drop_one, List.tail_cons,
    List.mapM_cons, hrest]
  rfl

instance NamedType.faithful : NamedType.codec.Faithful := faithful_record

namespace TypeTable

variable {t : TypeTable} {i : TypeId} {ty : Ty}

theorem Rows.reads {tys : List Ty} (h : ∀ ty ∈ tys, Ty.ofRow ty.toRow = ty) (ss : List Signature)
    (names : List NamedType) :
    Rows.codec.Reads ⟨tys, ⟨[], 0⟩ :: ss, names⟩ ⟨tys, ⟨[], 0⟩ :: ss, names⟩ :=
  reads_record <| .reads (reads_map (reads_items fun ty hty => Ty.reads (h ty hty))) <|
    .reads (Signature.reads_listCodec ss) <| .plain <| .nil _

/-! ## The rebuilt index -/

theorem declIndex_concat (types : List Ty) (ty : Ty) :
    declIndex (types ++ [ty]) = match ty.shape with
      | .named d _ => (d, ⟨types.length⟩) :: declIndex types
      | _ => declIndex types := by
  obtain ⟨shape, m⟩ := ty
  simp only [declIndex, List.zipIdx_append]
  cases shape <;> simp

variable {types : List Ty} {d : DeclId} {slot : Nat} {m : Modifier}

theorem lookup_declIndex (h : (declIndex types).lookup d = some i) :
    ∃ slot m, types[i.index]? = some ⟨.named d slot, m⟩ := by
  induction types using List.reverseRecOn with
  | nil => cases h
  | append_singleton types ty ih =>
    have hold (hi : (declIndex types).lookup d = some i) :
        ∃ slot m, (types ++ [ty])[i.index]? = some ⟨.named d slot, m⟩ := by
      obtain ⟨slot, m, hentry⟩ := ih hi
      have hlt := (List.getElem?_eq_some_iff.1 hentry).1
      exact ⟨slot, m, by rw [List.getElem?_append_left hlt, hentry]⟩
    rw [declIndex_concat] at h
    split at h
    next d' slot hshape =>
      rw [List.lookup_cons] at h
      split at h
      next heq =>
        cases h
        obtain ⟨s, m⟩ := ty
        cases hshape
        rw [eq_of_beq heq]
        exact ⟨slot, m, by simp⟩
      next => exact hold h
    next => exact hold h

/-- Of all types of a declaration, the last one is found. -/
theorem exists_lookup_declIndex {n : Nat} (h : types[n]? = some ⟨.named d slot, m⟩) :
    ∃ i, (declIndex types).lookup d = some i ∧ n ≤ i.index := by
  induction types using List.reverseRecOn with
  | nil => cases h
  | append_singleton types ty ih =>
    have hle : n ≤ types.length := by
      have hlt := (List.getElem?_eq_some_iff.1 h).1
      rw [List.length_append] at hlt
      exact Nat.le_of_lt_succ hlt
    rw [declIndex_concat]
    rcases Nat.lt_or_eq_of_le hle with hlt | rfl
    · rw [List.getElem?_append_left hlt] at h
      split
      next d' _ _ =>
        rw [List.lookup_cons]
        split
        · exact ⟨_, rfl, hle⟩
        · exact ih h
      next => exact ih h
    · rw [List.getElem?_concat_length] at h
      cases h
      exact ⟨⟨types.length⟩, by simp, .refl⟩

/-! ## The table that is read -/

def withIndex (t : TypeTable) (index : List (DeclId × TypeId)) : TypeTable :=
  { t with byDecl := index }

section

variable (t : TypeTable) (index : List (DeclId × TypeId))

theorem intern_withIndex (ty : Ty) :
    (t.withIndex index).intern ty = ((t.intern ty).1.withIndex index, (t.intern ty).2) := by
  have hfind : (t.withIndex index).find? ty = t.find? ty := rfl
  unfold intern
  rw [hfind]
  split
  · rfl
  · cases t.find? ty <;> rfl

theorem findFn?_withIndex (s : Signature) (k n : Nat) :
    (t.withIndex index).findFn? s k n = t.findFn? s k n := by
  induction n generalizing k with
  | zero => rfl
  | succ n ih =>
    simp only [findFn?, ih]
    rfl

theorem fn_withIndex (params : List TypeId) (result : TypeId) :
    (t.withIndex index).fn params result =
      ((t.fn params result).1.withIndex index, (t.fn params result).2) := by
  have hfind := findFn?_withIndex t index ⟨params, result⟩ 1 (t.types.size - 1)
  unfold fn
  dsimp only
  rw [show (t.withIndex index).types.size = t.types.size from rfl, hfind]
  cases t.findFn? ⟨params, result⟩ 1 (t.types.size - 1) <;> rfl

theorem labelAt_withIndex (depth : Nat) (i : TypeId) :
    (t.withIndex index).labelAt depth i = t.labelAt depth i := by
  induction depth generalizing i with
  | zero => rfl
  | succ depth ih =>
    have hlabels : (t.withIndex index).labelAt depth = t.labelAt depth := funext ih
    simp only [labelAt, hlabels]
    rfl

end

theorem seed_eq_self (h : ∀ s ∈ builtinShapes, (t.intern (.ofShape s)).1 = t) : t.seed = t := by
  unfold seed
  generalize builtinShapes = shapes at h
  induction shapes with
  | nil => rfl
  | cons s shapes ih =>
    rw [List.foldl_cons, h s List.mem_cons_self]
    exact ih fun s' hs' => h s' (List.mem_cons_of_mem s hs')

theorem intern_of_mem (h : ty ∈ t.types) : (t.intern ty).1 = t := by
  unfold intern
  split
  · rfl
  · split
    · rfl
    next hnone =>
      obtain ⟨n, hn⟩ := Array.getElem?_of_mem h
      exact absurd hn (find?_eq_none hnone n)

/-- A table that is read as it was written: rows hold its types, the reserved entries are where they
belong, and the built-in types are there. -/
@[mk_iff] structure Writable (t : TypeTable) : Prop where
  rows : ∀ ty ∈ t.types, Ty.ofRow ty.toRow = ty
  type : t.types[0]? = some (.ofShape (.plain .invalid))
  signature : t.signatures[0]? = some ⟨[], 0⟩
  name : 0 < t.names.size
  builtin : ∀ s ∈ builtinShapes, .ofShape s ∈ t.types

instance (t : TypeTable) : Decidable t.Writable := decidable_of_iff' _ t.writable_iff

namespace Writable

/-- Rows hold whatever is not the reserved type. -/
theorem of_proper (type : t.types[0]? = some (.ofShape (.plain .invalid)))
    (signature : t.signatures[0]? = some ⟨[], 0⟩) (name : 0 < t.names.size)
    (builtin : ∀ {k s}, builtinShapes[k]? = some s → t.types[k + 1]? = some (.ofShape s))
    (proper : ∀ {n ty}, n ≠ 0 → t.types[n]? = some ty → ty.shape.Proper) : t.Writable := by
  refine ⟨fun ty hty => Ty.ofRow_toRow fun k hk => ?_, type, signature, name, fun s hs => ?_⟩
  · obtain ⟨n, hn⟩ := Array.getElem?_of_mem hty
    by_cases h0 : n = 0
    · cases type.symm.trans (h0 ▸ hn)
      cases hk
      rfl
    · exact (proper h0 hn k hk).1
  · obtain ⟨k, hk⟩ := List.getElem?_of_mem hs
    exact Array.mem_of_getElem? (builtin hk)

theorem reads_rows (h : t.Writable) : Rows.codec.Reads t.rows t.rows := by
  have hreserved := h.signature
  rw [← Array.getElem?_toList] at hreserved
  unfold TypeTable.rows
  cases heq : t.signatures.toList with
  | nil =>
    rw [heq] at hreserved
    cases hreserved
  | cons s ss =>
    rw [heq] at hreserved
    cases hreserved
    exact Rows.reads (fun ty hty => h.rows ty (Array.mem_toList_iff.1 hty)) ss t.names.toList

/-- Restoring a table from its own lists rebuilds the index and changes nothing else. -/
theorem restore_rows (h : t.Writable) :
    restore t.rows.types t.rows.signatures t.rows.names =
      t.withIndex (declIndex t.types.toList) := by
  have hall : .ofShape (.plain .invalid) :: t.types.toList.drop 1 = t.types.toList := by
    have hreserved := h.type
    rw [← Array.getElem?_toList] at hreserved
    cases heq : t.types.toList with
    | nil =>
      rw [heq] at hreserved
      cases hreserved
    | cons ty tys =>
      rw [heq] at hreserved
      cases hreserved
      rfl
  have hss : t.signatures.toList.isEmpty = false := by
    have hpos := (Array.getElem?_eq_some_iff.1 h.signature).1
    simpa [← Array.size_pos_iff] using hpos
  have hns : t.names.toList.isEmpty = false := by
    simpa [← Array.size_pos_iff] using h.name
  have htable : restore t.rows.types t.rows.signatures t.rows.names =
      (t.withIndex (declIndex t.types.toList)).seed := by
    simp only [restore, TypeTable.rows, hall, hss, hns]
    rfl
  rw [htable]
  refine seed_eq_self fun s hs => ?_
  rw [intern_withIndex, intern_of_mem (h.builtin s hs)]

theorem reads (h : t.Writable) : codec.Reads t (t.withIndex (declIndex t.types.toList)) := by
  have hreads := reads_map (f := fun r : Rows => restore r.types r.signatures r.names)
    h.reads_rows
  rwa [h.restore_rows] at hreads

end Writable

theorem Canonical.named_slot (h : t.Canonical) {j : TypeId} {slot' : Nat}
    {m' : Modifier} (hi : t.lookup? i = some ⟨.named d slot, m⟩)
    (hj : t.lookup? j = some ⟨.named d slot', m'⟩) : slot = slot' := by
  obtain ⟨h0, x, hx, rfl⟩ := (h.backed hi).named rfl
  obtain ⟨h0', x', hx', hd⟩ := (h.backed hj).named rfl
  obtain ⟨k, hk, hlook⟩ := h.exists_named h0 hx
  obtain ⟨k', hk', hlook'⟩ := h.exists_named h0' hx'
  rw [hd] at hk' hlook'
  cases hk.symm.trans hk'
  cases hlook.symm.trans hlook'
  rfl

/-- With the rebuilt index, a declaration leads to its newest type. That is the type that it led to
before only if no variant with a modifier has been made of it. -/
theorem Canonical.named_restored (h : t.Canonical) (name : Text)
    (hi : t.lookup? i = some (.ofShape (.named d slot))) :
    let u := t.withIndex (declIndex t.types.toList)
    ∃ j m, u.named d name = (u, j) ∧ t.lookup? j = some ⟨.named d slot, m⟩ ∧
      (∀ k m', t.lookup? k = some ⟨.named d slot, m'⟩ → k.index ≤ j.index) ∧
      (j = i ↔ ∀ k m', t.lookup? k = some ⟨.named d slot, m'⟩ → k = i) := by
  intro u
  have hentry {k : TypeId} {m : Modifier} (hk : t.lookup? k = some ⟨.named d slot, m⟩) :
      ∃ j, (declIndex t.types.toList).lookup d = some j ∧ k.index ≤ j.index := by
    have htype := (lookup?_eq_some_iff.1 hk).2
    rw [← Array.getElem?_toList] at htype
    exact exists_lookup_declIndex htype
  obtain ⟨j, hj, -⟩ := hentry hi
  obtain ⟨slot', m, hentry'⟩ := lookup_declIndex hj
  rw [Array.getElem?_toList] at hentry'
  have hlook : t.lookup? j = some ⟨.named d slot', m⟩ :=
    h.lookup?_of_entry (by nofun) hentry'
  cases h.named_slot hi hlook
  have hnewest (k : TypeId) (m') (hk : t.lookup? k = some ⟨.named d slot, m'⟩) :
    k.index ≤ j.index := by
    obtain ⟨j', hj', hle⟩ := hentry hk
    cases hj.symm.trans hj'
    exact hle
  have hnamed : u.named d name = (u, j) := by
    simp only [u, TypeTable.named, withIndex, hj]
  refine ⟨j, m, hnamed, hlook, hnewest, fun hji k m' hk => ?_, fun honly => honly j m hlook⟩
  -- the newest type is the first one as well
  obtain ⟨i', hle, hi'⟩ := h.named_first (lookup?_eq_some_iff.1 hk).2
  cases h.unique_id hi' hi
  have hindex : k.index = i.index := Nat.le_antisymm (hji ▸ hnewest k m' hk) hle
  exact congrArg Id.mk hindex

theorem Canonical.exists_fn_of_signature? (h : t.Canonical) {s : Signature}
    (hs : t.signature? i = some s) : ∃ j, t.fn s.params s.result = (t, j) := by
  obtain ⟨slot, m, hi, h0, hslot⟩ := signature?_eq_some_iff.1 hs
  obtain ⟨j, hj⟩ := h.exists_fn (Nat.pos_of_ne_zero h0) ((h.backed hi).fn rfl).2
  exact ⟨j, h.fn_of_lookup? hj hslot⟩

theorem Canonical.intern_builtin (h : t.Canonical) (hgrown : initial.Extends t) {k : Nat}
    {s : Shape} (hk : builtinShapes[k]? = some s) : t.intern (.ofShape s) = (t, ⟨k + 1⟩) :=
  h.intern_of_lookup? (hgrown.lookup? (initial_wellFormed.lookup?_builtin hk))

theorem after_writable (rs : List Request) : (initial.after rs).Writable := by
  obtain ⟨h, hgrown⟩ := initial_canonical.after rs
  exact .of_proper h.reserved (hgrown.signatures (by decide)) h.names_pos
    (fun hk => hgrown.types (initial_wellFormed.builtin hk)) fun h0 hn => (h.entries h0 hn).proper

theorem WellFormed.writable (wf : t.WellFormed) : t.Writable :=
  .of_proper wf.reserved wf.signature wf.names_pos wf.builtin fun h0 hn => (wf.entries h0 hn).proper

/-- If files have room for a table, what is read answers as the table does: every identifier has the
same type, signature, name and label, the built-in types are where they were, and types and
signatures that are there lead to the identifiers that they led to. Nothing is added to either table
by these questions.

One thing differs. A declaration leads to the newest of its types, which is the type that it led to
before exactly if that one is its only type, that is, if no variant with a modifier was made of
it. -/
theorem restored_table_agrees {rs : List Request} (hfits : (codec.encode (initial.after rs)).Fits) :
    let t := initial.after rs
    ∃ u, decode? t.encode = some u ∧ u.size = t.size ∧
      (∀ i, u.lookup? i = t.lookup? i ∧ u.kind i = t.kind i ∧ u.signature? i = t.signature? i ∧
        u.namedInfo? i = t.namedInfo? i ∧ u.label i = t.label i) ∧
      (∀ k s, builtinShapes[k]? = some s →
        t.intern (.ofShape s) = (t, ⟨k + 1⟩) ∧ u.intern (.ofShape s) = (u, ⟨k + 1⟩)) ∧
      (∀ i ty, t.lookup? i = some ty → t.intern ty = (t, i) ∧ u.intern ty = (u, i)) ∧
      (∀ i s, t.signature? i = some s →
        ∃ j, t.fn s.params s.result = (t, j) ∧ u.fn s.params s.result = (u, j)) ∧
      (∀ i d slot name, t.lookup? i = some (.ofShape (.named d slot)) →
        t.named d name = (t, i) ∧
        ∃ j m, u.named d name = (u, j) ∧ t.lookup? j = some ⟨.named d slot, m⟩ ∧
          (∀ k m', t.lookup? k = some ⟨.named d slot, m'⟩ → k.index ≤ j.index) ∧
          (j = i ↔ ∀ k m', t.lookup? k = some ⟨.named d slot, m'⟩ → k = i)) := by
  intro t
  obtain ⟨h, hgrown⟩ := initial_canonical.after rs
  have hintern {ty : Ty} {i : TypeId} (hty : t.intern ty = (t, i)) :
      (t.withIndex (declIndex t.types.toList)).intern ty =
        (t.withIndex (declIndex t.types.toList), i) := by
    rw [intern_withIndex, hty]
  have hread := (after_writable rs).reads.decode_bytes hfits []
  rw [List.append_nil] at hread
  refine ⟨_, hread, rfl, fun i => ⟨rfl, rfl, rfl, rfl, labelAt_withIndex ..⟩, ?_, ?_,
    ?_, ?_⟩
  · intro k s hk
    have hbuiltin := h.intern_builtin hgrown hk
    exact ⟨hbuiltin, hintern hbuiltin⟩
  · intro i ty hi
    have hthere := h.intern_of_lookup? hi
    exact ⟨hthere, hintern hthere⟩
  · intro i s hs
    obtain ⟨j, hj⟩ := h.exists_fn_of_signature? hs
    exact ⟨j, hj, by rw [fn_withIndex, hj]⟩
  · intro i d slot name hi
    exact ⟨h.named_of_lookup? name hi, h.named_restored name hi⟩

/-- A declared type and a function type over it, with one variant of the function type: everything
is found again, the declaration included. -/
theorem restored_table_agrees_fn :
    let rs : List Request := [.named 17 "T", .fn [22] Builtin.bool, .withModifier 23 .const]
    let t := initial.after rs
    (codec.encode t).Fits ∧ ∃ u, decode? t.encode = some u ∧ u.size = t.size ∧
      u.label 24 = t.label 24 ∧
      u.intern ⟨.fn 1, .const⟩ = (u, 24) ∧
        (u.fn [22] Builtin.bool).2 = (t.fn [22] Builtin.bool).2 := by
  intro rs t
  have hfits : (codec.encode t).Fits := by decide +kernel
  have h24 : t.lookup? 24 = some ⟨.fn 1, .const⟩ := by decide +kernel
  have hsignature : t.signature? 23 = some ⟨[22], Builtin.bool⟩ := by decide +kernel
  obtain ⟨u, hu, hsame, hat, -, hintern, hfn, -⟩ := restored_table_agrees hfits
  obtain ⟨j, hj, hj'⟩ := hfn 23 _ hsignature
  refine ⟨hfits, u, hu, hsame, (hat 24).2.2.2.2, (hintern 24 _ h24).2, ?_⟩
  rw [hj', hj]

/-- A declared type of which a variant was made: after reading, its declaration leads to the
variant. -/
theorem named_leads_to_variant_when_restored :
    let t := initial.after [.named 17 "T", .withModifier 22 .const]
    (t.named 17 "T").2 = 22 ∧ (decode? t.encode).map (fun u => (u.named 17 "T").2) = some 23 := by
  decide +kernel

end TypeTable

end UnitCheck
