import UnitCheck.Ty.Table
import Mathlib.Tactic.Common

/-!
# Growth and well-formedness of the type table

A table only ever grows: `TypeTable.Extends` says that every entry keeps its place. A table is
`WellFormed` if its reserved and built-in entries are where they belong and each other entry is one
that may stand at its place (`Admits`): its parts come earlier, and a function type has a signature.

Every operation that makes a type is described once, by `Made`: the table that it leaves extends the
one before, is well-formed, and has the type at the identifier that it returns. Proofs about typing
cite that description and do not look into the search for equal entries.
-/

namespace UnitCheck

namespace Shape

/-- The types that a shape names directly. A function type names its parts through its signature. -/
def parts : Shape → List TypeId
  | array _ elem _ | reference _ elem | pointer elem | optional elem => [elem]
  | _ => []

/-- A plain shape has a kind that no other constructor stands for, and that kind is not the one of
the reserved entry. -/
def Proper (s : Shape) : Prop := ∀ k, s = plain k → ofKind k = plain k ∧ k ≠ .invalid

instance (s : Shape) : Decidable s.Proper :=
  match s with
  | plain k => decidable_of_iff (ofKind k = plain k ∧ k ≠ .invalid) (by simp [Proper])
  | int _ | uint _ | float _ | array .. | reference .. | pointer _ | optional _ | named .. | fn _
  | var _ => .isTrue fun _ h => nomatch h

variable {s : Shape}

theorem Proper.kind_ne_invalid (h : s.Proper) : s.kind ≠ .invalid := by
  cases s with
  | plain k => exact (h k rfl).2
  | int | uint | float | array | reference | pointer | optional | named | fn | var =>
    simp only [kind]
    decide

theorem Proper.eq_plain {k : Kind} (hk : (plain k).Proper) (h : s.kind = k) : s = plain k := by
  subst h
  have hplain := (hk _ rfl).1
  cases s with
  | plain k => rfl
  | int | uint | float | array | reference | pointer | optional | named | fn | var => cases hplain

end Shape

namespace TypeTable

variable {t t' t'' : TypeTable} {i : TypeId} {ty : Ty}

theorem lookup?_eq_some_iff :
    t.lookup? i = some ty ↔ i.index ≠ 0 ∧ t.types[i.index]? = some ty := by
  unfold lookup?
  split <;> simp_all

theorem lt_size_of_lookup? (h : t.lookup? i = some ty) : i.index < t.size := by
  have hentry := (lookup?_eq_some_iff.1 h).2
  exact (Array.getElem?_eq_some_iff.1 hentry).1

theorem exists_lookup? (h0 : i.index ≠ 0) (h : i.index < t.size) : ∃ ty, t.lookup? i = some ty :=
  ⟨t.types[i.index], lookup?_eq_some_iff.2 ⟨h0, Array.getElem?_eq_getElem h⟩⟩

variable {s : Signature} {n k : Nat}

theorem signature?_eq_some_iff : t.signature? i = some s ↔
      ∃ slot m, t.lookup? i = some ⟨.fn slot, m⟩ ∧ slot ≠ 0 ∧ t.signatures[slot]? = some s := by
  unfold signature?
  constructor
  · intro h
    split at h
    next slot m hlook =>
      split at h
      · cases h
      · exact ⟨slot, m, hlook, by assumption, h⟩
    next => cases h
  · rintro ⟨slot, m, hlook, h0, hs⟩
    simp [hlook, h0, hs]

/-! ## Growth -/

section Entries

variable {α : Type} {xs : Array α} {n : Nat} {x y : α}

theorem getElem?_push_of_some (h : xs[n]? = some x) : (xs.push y)[n]? = some x := by
  rw [Array.getElem?_push_lt (Array.getElem?_eq_some_iff.1 h).1, (Array.getElem?_eq_some_iff.1 h).2]

theorem getElem?_push_cases (h : (xs.push y)[n]? = some x) :
    xs[n]? = some x ∨ (n = xs.size ∧ x = y) := by
  rw [Array.getElem?_push] at h
  split at h
  next hlast => exact .inr ⟨hlast, (Option.some.inj h).symm⟩
  next => exact .inl h

end Entries

/-- Every entry of `t` is in `t'`, at the same place. -/
structure Extends (t t' : TypeTable) : Prop where
  types : ∀ {n : Nat} {ty : Ty}, t.types[n]? = some ty → t'.types[n]? = some ty
  signatures : ∀ {n : Nat} {s : Signature}, t.signatures[n]? = some s →
    t'.signatures[n]? = some s

namespace Extends

@[refl] theorem refl (t : TypeTable) : t.Extends t := ⟨id, id⟩

theorem trans (h : t.Extends t') (h' : t'.Extends t'') : t.Extends t'' :=
  ⟨fun hn => h'.types (h.types hn), fun hn => h'.signatures (h.signatures hn)⟩

theorem lookup? (h : t.Extends t') (hi : t.lookup? i = some ty) : t'.lookup? i = some ty := by
  rw [lookup?_eq_some_iff] at hi ⊢
  exact ⟨hi.1, h.types hi.2⟩

theorem signature? (h : t.Extends t') {s : Signature} (hi : t.signature? i = some s) :
    t'.signature? i = some s := by
  obtain ⟨slot, m, hlook, h0, hs⟩ := signature?_eq_some_iff.1 hi
  exact signature?_eq_some_iff.2 ⟨slot, m, h.lookup? hlook, h0, h.signatures hs⟩

end Extends

/-! ## Well-formed tables -/

/-- A type may stand at position `n`: its parts come earlier and it is not the reserved type. -/
structure Admits (t : TypeTable) (n : Nat) (s : Shape) : Prop where
  proper : s.Proper
  parts : ∀ p ∈ s.parts, p.index < n
  signature : ∀ slot, s = .fn slot → ∃ sig, slot ≠ 0 ∧ t.signatures[slot]? = some sig ∧
    ∀ p ∈ sig.result :: sig.params, p.index < n

theorem Admits.mono {n' : Nat} {s : Shape} (h : t.Admits n s) (ht : t.Extends t')
    (hn : n ≤ n') : t'.Admits n' s where
  proper := h.proper
  parts p hp := Nat.lt_of_lt_of_le (h.parts p hp) hn
  signature slot hs := by
    obtain ⟨sig, h0, hsig, hparts⟩ := h.signature slot hs
    exact ⟨sig, h0, ht.signatures hsig, fun p hp => Nat.lt_of_lt_of_le (hparts p hp) hn⟩

/-- The reserved entries and the built-in types are in place, and every entry after the first may
stand where it stands. -/
structure WellFormed (t : TypeTable) : Prop where
  reserved : t.types[0]? = some (.ofShape (.plain .invalid))
  signature : t.signatures[0]? = some ⟨[], 0⟩
  names_pos : 0 < t.names.size
  builtin : ∀ {k : Nat} {s : Shape}, builtinShapes[k]? = some s →
    t.types[k + 1]? = some (.ofShape s)
  entries : ∀ {n : Nat} {ty : Ty}, n ≠ 0 → t.types[n]? = some ty → t.Admits n ty.shape
  byDecl : ∀ {d : DeclId} {i : TypeId}, t.byDecl.lookup d = some i →
    ∃ slot, t.lookup? i = some (.ofShape (.named d slot))

namespace WellFormed

theorem admits (wf : t.WellFormed) (h : t.lookup? i = some ty) : t.Admits i.index ty.shape :=
  have ⟨h0, hentry⟩ := lookup?_eq_some_iff.1 h
  wf.entries h0 hentry

theorem size_pos (wf : t.WellFormed) : 0 < t.size :=
  (Array.getElem?_eq_some_iff.1 wf.reserved).1

theorem signatures_pos (wf : t.WellFormed) : 0 < t.signatures.size :=
  (Array.getElem?_eq_some_iff.1 wf.signature).1

theorem lookup?_builtin (wf : t.WellFormed) {k : Nat} {s : Shape}
    (h : builtinShapes[k]? = some s) : t.lookup? ⟨k + 1⟩ = some (.ofShape s) :=
  lookup?_eq_some_iff.2 ⟨Nat.succ_ne_zero k, wf.builtin h⟩

theorem exists_signature (wf : t.WellFormed) {slot : Nat} {m : Modifier}
    (h : t.lookup? i = some ⟨.fn slot, m⟩) :
    ∃ s, t.signature? i = some s ∧ ∀ p ∈ s.result :: s.params, p.index < i.index := by
  obtain ⟨sig, h0, hsig, hparts⟩ := (wf.admits h).signature slot rfl
  exact ⟨sig, signature?_eq_some_iff.2 ⟨slot, m, h, h0, hsig⟩, hparts⟩

end WellFormed

/-! ## Making types -/

/-- What making a type does: the table grows, stays well-formed, and has the type at `i`. -/
structure Made (t t' : TypeTable) (i : TypeId) (ty : Ty) : Prop where
  wellFormed : t'.WellFormed
  grows : t.Extends t'
  lookup? : t'.lookup? i = some ty

theorem lastIndex?_eq_some {types : Array Ty} (h : lastIndex? types ty n = some k) :
    types[k]? = some ty := by
  induction n with
  | zero => cases h
  | succ n ih =>
    unfold lastIndex? at h
    split at h
    · cases h
      assumption
    · exact ih h

theorem push_extends (t : TypeTable) (ty : Ty) : t.Extends (t.push ty).1 where
  types := getElem?_push_of_some
  signatures := id

theorem WellFormed.push (wf : t.WellFormed) (ty : Ty) (h : t.Admits t.size ty.shape) :
    t.Made (t.push ty).1 (t.push ty).2 ty := by
  have hext := push_extends t ty
  refine ⟨?_, hext, ?_⟩
  · constructor
    · exact hext.types wf.reserved
    · exact wf.signature
    · exact wf.names_pos
    · exact fun hk => hext.types (wf.builtin hk)
    · intro n ty' h0 hn
      obtain hold | ⟨rfl, rfl⟩ := getElem?_push_cases hn
      · exact (wf.entries h0 hold).mono hext .refl
      · exact h.mono hext .refl
    · exact fun hd => (wf.byDecl hd).imp fun _ => hext.lookup?
  · refine lookup?_eq_some_iff.2 ⟨?_, by simp [TypeTable.push]⟩
    exact Nat.ne_of_gt wf.size_pos

theorem WellFormed.intern (wf : t.WellFormed) (h : t.Admits t.size ty.shape) :
    t.Made (t.intern ty).1 (t.intern ty).2 ty := by
  unfold TypeTable.intern
  have hkind : ty.kind ≠ .invalid := h.proper.kind_ne_invalid
  rw [if_neg hkind]
  split
  next i hfind =>
    obtain ⟨k, hk, rfl⟩ := Option.map_eq_some_iff.1 hfind
    have hentry := lastIndex?_eq_some hk
    refine ⟨wf, .refl t, lookup?_eq_some_iff.2 ⟨?_, hentry⟩⟩
    -- the reserved entry has an invalid kind, so the entry that was found is another one
    rintro (rfl : k = 0)
    rw [wf.reserved] at hentry
    cases hentry
    exact hkind rfl
  next => exact wf.push ty h

theorem WellFormed.withModifier (wf : t.WellFormed) (h : t.lookup? i = some ty) (m : Modifier) :
    t.Made (t.withModifier i m).1 (t.withModifier i m).2 ⟨ty.shape, m⟩ := by
  unfold TypeTable.withModifier
  rw [h]
  dsimp only
  split
  next heq =>
    subst heq
    exact ⟨wf, .refl t, h⟩
  next => exact wf.intern ((wf.admits h).mono (.refl t) (Nat.le_of_lt (lt_size_of_lookup? h)))

theorem withModifier_of_lookup?_none (h : t.lookup? i = none) (m : Modifier) :
    t.withModifier i m = (t, i) := by
  unfold withModifier
  rw [h]

/-- A function type that the search returns has the signature that was looked for. -/
theorem findFn?_eq_some (hk : k ≠ 0)
    (h : t.findFn? s k n = some i) : ∃ slot, t.lookup? i = some (.ofShape (.fn slot)) ∧
      t.signatures[slot]? = some s := by
  induction n generalizing k with
  | zero => cases h
  | succ n ih =>
    unfold findFn? at h
    split at h
    next slot hentry =>
      split at h
      next hsig =>
        cases h
        exact ⟨slot, lookup?_eq_some_iff.2 ⟨hk, hentry⟩, hsig⟩
      next => exact ih (Nat.succ_ne_zero k) h
    next => exact ih (Nat.succ_ne_zero k) h

theorem WellFormed.pushSignature (wf : t.WellFormed) (s : Signature) :
    ({ t with signatures := t.signatures.push s } : TypeTable).WellFormed ∧
      t.Extends { t with signatures := t.signatures.push s } := by
  have hext : t.Extends { t with signatures := t.signatures.push s } := ⟨id, getElem?_push_of_some⟩
  exact ⟨⟨wf.reserved, hext.signatures wf.signature, wf.names_pos, wf.builtin,
    fun h0 hn => (wf.entries h0 hn).mono hext .refl, wf.byDecl⟩, hext⟩

theorem WellFormed.fn (wf : t.WellFormed) {params : List TypeId} {result : TypeId}
    (h : ∀ p ∈ result :: params, p.index < t.size) :
    ∃ slot, t.Made (t.fn params result).1 (t.fn params result).2 (.ofShape (.fn slot)) ∧
      (t.fn params result).1.signature? (t.fn params result).2 = some ⟨params, result⟩ := by
  unfold TypeTable.fn
  dsimp only
  split
  next i hfind =>
    obtain ⟨slot, hlook, hsig⟩ := findFn?_eq_some Nat.one_ne_zero hfind
    obtain ⟨sig, h0, -, -⟩ := (wf.admits hlook).signature slot rfl
    exact ⟨slot, ⟨wf, .refl t, hlook⟩, signature?_eq_some_iff.2 ⟨slot, _, hlook, h0, hsig⟩⟩
  next =>
    obtain ⟨wf', hext⟩ := wf.pushSignature ⟨params, result⟩
    have hadmits : ({ t with signatures := t.signatures.push ⟨params, result⟩ } : TypeTable).Admits
        t.size (.fn t.signatures.size) := by
      refine ⟨fun k hk => (nomatch hk), fun p hp => (nomatch hp), ?_⟩
      rintro slot ⟨⟩
      exact ⟨⟨params, result⟩, Nat.ne_of_gt wf.signatures_pos, by simp, h⟩
    have made := wf'.push (.ofShape (.fn t.signatures.size)) hadmits
    refine ⟨_, ⟨made.wellFormed, hext.trans made.grows, made.lookup?⟩, ?_⟩
    refine signature?_eq_some_iff.2 ⟨_, _, made.lookup?, Nat.ne_of_gt wf.signatures_pos, ?_⟩
    simp [TypeTable.push]

theorem WellFormed.named (wf : t.WellFormed) (d : DeclId) (name : Text) :
    ∃ slot, t.Made (t.named d name).1 (t.named d name).2 (.ofShape (.named d slot)) := by
  unfold TypeTable.named
  split
  next i hfind =>
    obtain ⟨slot, hlook⟩ := wf.byDecl hfind
    exact ⟨slot, wf, .refl t, hlook⟩
  next =>
    have hext : t.Extends { t with names := t.names.push ⟨d, name⟩ } := ⟨id, id⟩
    have wf' : ({ t with names := t.names.push ⟨d, name⟩ } : TypeTable).WellFormed :=
      ⟨wf.reserved, wf.signature, by simp, wf.builtin,
        fun h0 hn => (wf.entries h0 hn).mono hext .refl, wf.byDecl⟩
    have made := wf'.push (.ofShape (.named d t.names.size))
      ⟨fun k hk => (nomatch hk), fun p hp => (nomatch hp), fun slot hs => (nomatch hs)⟩
    refine ⟨t.names.size, ?_, ⟨made.grows.types, made.grows.signatures⟩, made.lookup?⟩
    · refine ⟨made.wellFormed.reserved, made.wellFormed.signature, made.wellFormed.names_pos,
        made.wellFormed.builtin, fun h0 hn => (made.wellFormed.entries h0 hn).mono ⟨id, id⟩ .refl,
        fun {d' i'} hd => ?_⟩
      rw [List.lookup_cons] at hd
      split at hd
      next heq =>
        cases hd
        rw [eq_of_beq heq]
        exact ⟨_, made.lookup?⟩
      next => exact made.wellFormed.byDecl hd

/-- The table that every unit starts with is well-formed: none of its types has parts. -/
theorem initial_wellFormed : initial.WellFormed where
  reserved := by decide
  signature := by decide
  names_pos := by decide
  builtin {k s} h := by
    have hall : ∀ k < 21, (builtinShapes[k]?).map .ofShape = initial.types[k + 1]? := by decide
    rw [← hall k (List.getElem?_eq_some_iff.1 h).1, h, Option.map_some]
  entries {n ty} h0 hn := by
    have hall : ∀ ty ∈ initial.types.toList.drop 1,
        ty.shape.Proper ∧ ty.shape.parts = [] ∧ ty.shape.kind ≠ .fn := by decide
    have hmem : ty ∈ initial.types.toList.drop 1 := by
      refine List.mem_of_getElem? (i := n - 1) ?_
      rw [List.getElem?_drop, Nat.add_sub_cancel' (Nat.pos_of_ne_zero h0)]
      simpa using hn
    obtain ⟨hproper, hparts, hfn⟩ := hall ty hmem
    refine ⟨hproper, by simp [hparts], fun slot hslot => ?_⟩
    rw [hslot] at hfn
    exact absurd rfl hfn
  byDecl h := nomatch h

end TypeTable

end UnitCheck
