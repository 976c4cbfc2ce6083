import UnitCheck.Proofs.Ty.Table

/-!
# Equal types have equal identifiers

A table can be asked for a type by its shape, by a signature, by a declaration, or by another type
whose modifier is exchanged (`Request`). Whatever it has been asked for before, its answers are
canonical: no type is kept twice, one signature and one declaration lead to one type each, and how a
type came to its modifier is forgotten.

Function types and declared types are not found by comparing entries. Their parts stand in lists
beside the table, and the entries hold positions in these lists, which copies with other modifiers
share. `Canonical` says how table and lists stay in step; every request keeps it
(`Canonical.ask`), and what the table answers is read off it.
-/

namespace UnitCheck

open Array

/-- Shapes that can be asked for as they are. The others have entries beside the table, or are there
from the start. -/
def Shape.isMade : Shape → Bool
  | .plain _ | .named .. | .fn _ => false
  | .array .slice _ n => n == dynamicLength
  | .int _ | .uint _ | .float _ | .array .. | .reference .. | .pointer _ | .optional _ | .var _ =>
    true

namespace TypeTable

/-- What a table can be asked for. -/
inductive Request
  | shape (s : Shape) (h : s.isMade = true)
  | fn (params : List TypeId) (result : TypeId)
  | named (decl : DeclId) (name : Text)
  | withModifier (i : TypeId) (m : Modifier)
  | unqualified (i : TypeId)
  | var (v : VarId)

def ask (t : TypeTable) : Request → TypeTable × TypeId
  | .shape s _ => t.intern (.ofShape s)
  | .fn params result => t.fn params result
  | .named decl name => t.named decl name
  | .withModifier i m => t.withModifier i m
  | .unqualified i => t.unqualified i
  | .var v => t.var v

def after (t : TypeTable) : List Request → TypeTable
  | [] => t
  | r :: rs => (t.ask r).1.after rs

variable {t t' : TypeTable} {i j : TypeId} {ty : Ty}

theorem Extends.size_le (h : t.Extends t') : t.size ≤ t'.size := by
  by_contra hlt
  have hentry := h.types (Array.getElem?_eq_getElem (Nat.lt_of_not_le hlt))
  exact absurd (Array.getElem?_eq_some_iff.1 hentry).1 (Nat.lt_irrefl _)

/-! ## Table and lists in step -/

/-- What an entry refers to beside the table is there. -/
structure Backed (t : TypeTable) (s : Shape) : Prop where
  proper : s.Proper
  fn : ∀ {slot : Nat}, s = .fn slot → 0 < slot ∧ slot < t.signatures.size
  named : ∀ {d : DeclId} {slot : Nat}, s = .named d slot →
    0 < slot ∧ ∃ x, t.names[slot]? = some x ∧ x.decl = d

theorem Backed.mono {s : Shape} (h : t.Backed s)
    (hsignatures : t.signatures.size ≤ t'.signatures.size)
    (hnames : ∀ {n : Nat} {x : NamedType}, t.names[n]? = some x → t'.names[n]? = some x) :
    t'.Backed s where
  proper := h.proper
  fn hs := ⟨(h.fn hs).1, Nat.lt_of_lt_of_le (h.fn hs).2 hsignatures⟩
  named hs := by
    obtain ⟨h0, x, hx, hd⟩ := h.named hs
    exact ⟨h0, x, hnames hx, hd⟩

theorem backed_of_isMade {s : Shape} (h : s.isMade = true) : t.Backed s := by
  cases s with
  | plain | named | fn => cases h
  | int | uint | float | array | reference | pointer | optional | var =>
    refine ⟨?_, ?_, ?_⟩
    · rintro _ ⟨⟩
    all_goals intros; contradiction

/-- No type is kept twice, and the entries that hold slots agree with the lists that slots point
into: each slot but the reserved one belongs to one type without modifier. -/
structure Canonical (t : TypeTable) : Prop where
  reserved : t.types[0]? = some (.ofShape (.plain .invalid))
  entries : ∀ {n : Nat} {ty : Ty}, n ≠ 0 → t.types[n]? = some ty → t.Backed ty.shape
  unique : ∀ {m n : Nat} {ty : Ty}, t.types[m]? = some ty → t.types[n]? = some ty → m = n
  signatures_pos : 0 < t.signatures.size
  names_pos : 0 < t.names.size
  exists_fn : ∀ {slot : Nat}, 0 < slot → slot < t.signatures.size →
    ∃ i, t.lookup? i = some (.ofShape (.fn slot))
  signature_unique : ∀ {k l : Nat} {s : Signature}, 0 < k → 0 < l → t.signatures[k]? = some s →
    t.signatures[l]? = some s → k = l
  exists_named : ∀ {slot : Nat} {x : NamedType}, 0 < slot → t.names[slot]? = some x →
    ∃ i, t.byDecl.lookup x.decl = some i ∧ t.lookup? i = some (.ofShape (.named x.decl slot))
  byDecl : ∀ {d : DeclId} {i : TypeId}, t.byDecl.lookup d = some i →
    ∃ slot, t.lookup? i = some (.ofShape (.named d slot))
  named_first : ∀ {n : Nat} {d : DeclId} {slot : Nat} {m : Modifier},
    t.types[n]? = some ⟨.named d slot, m⟩ →
      ∃ i, i.index ≤ n ∧ t.lookup? i = some (.ofShape (.named d slot))

theorem initial_canonical : initial.Canonical := by
  have hnodup : initial.types.toList.Nodup := by decide
  have hshapes : ∀ ty ∈ initial.types.toList, ty.shape.kind ≠ .fn ∧ ty.shape.kind ≠ .named := by
    decide
  refine
    { reserved := by decide
      entries := fun {n ty} h0 hn => ?_
      unique := fun {m n ty} hm hn => ?_
      signatures_pos := by decide
      names_pos := by decide
      exists_fn := fun h0 h => absurd h (Nat.not_lt.2 h0)
      signature_unique := fun hk _ h _ =>
        absurd (Array.getElem?_eq_some_iff.1 h).1 (Nat.not_lt.2 hk)
      exists_named := fun h0 h => absurd (Array.getElem?_eq_some_iff.1 h).1 (Nat.not_lt.2 h0)
      byDecl := fun h => nomatch h
      named_first := fun {n d slot m} hn => ?_ }
  · have hshape := hshapes ty (mem_toList_iff.2 (mem_of_getElem? hn))
    refine ⟨(initial_wellFormed.entries h0 hn).proper, fun hs => ?_, fun hs => ?_⟩
    · exact absurd (congrArg Shape.kind hs) hshape.1
    · exact absurd (congrArg Shape.kind hs) hshape.2
  · rw [← getElem?_toList] at hm hn
    exact (List.getElem?_inj (List.getElem?_eq_some_iff.1 hm).1 hnodup).1 (hm.trans hn.symm)
  · exact absurd rfl (hshapes _ (mem_toList_iff.2 (mem_of_getElem? hn))).2

namespace Canonical

theorem unique_id (h : t.Canonical) (hi : t.lookup? i = some ty) (hj : t.lookup? j = some ty) :
    i = j := by
  rw [lookup?_eq_some_iff] at hi hj
  exact congrArg Id.mk (h.unique hi.2 hj.2)

theorem backed (h : t.Canonical) (hi : t.lookup? i = some ty) : t.Backed ty.shape :=
  have ⟨h0, hentry⟩ := lookup?_eq_some_iff.1 hi
  h.entries h0 hentry

theorem lookup?_of_entry (h : t.Canonical) {n : Nat} (hv : ty.kind ≠ .invalid)
    (hn : t.types[n]? = some ty) : t.lookup? ⟨n⟩ = some ty := by
  refine lookup?_eq_some_iff.2 ⟨?_, hn⟩
  rintro rfl
  rw [h.reserved] at hn
  cases hn
  exact hv rfl

end Canonical

/-! ## Types by their entries -/

variable {n slot : Nat} {s : Signature}

theorem lastIndex?_isSome {types : Array Ty} {k : Nat} (hk : k < n) (h : types[k]? = some ty) :
    (lastIndex? types ty n).isSome = true := by
  induction n with
  | zero => exact absurd hk (Nat.not_lt_zero k)
  | succ n ih =>
    unfold lastIndex?
    split
    · rfl
    next hne =>
      refine ih (Nat.lt_of_le_of_ne (Nat.le_of_lt_succ hk) ?_)
      rintro rfl
      exact hne h

theorem find?_eq_none (h : t.find? ty = none) (n : Nat) : t.types[n]? ≠ some ty := by
  intro hn
  have hsome := lastIndex?_isSome (Array.getElem?_eq_some_iff.1 hn).1 hn
  rw [Option.map_eq_none_iff.1 h] at hsome
  cases hsome

theorem Canonical.push_unique (h : t.Canonical) (hnew : ∀ n : Nat, t.types[n]? ≠ some ty) {m : Nat}
    {ty' : Ty} (hm : (t.push ty).1.types[m]? = some ty') (hn : (t.push ty).1.types[n]? = some ty') :
    m = n := by
  obtain hm | ⟨rfl, rfl⟩ := getElem?_push_cases hm <;>
    obtain hn | ⟨rfl, hty⟩ := getElem?_push_cases hn
  · exact h.unique hm hn
  · exact absurd (hty ▸ hm) (hnew _)
  · exact absurd hn (hnew _)
  · rfl

theorem Canonical.lookup?_push (h : t.Canonical) :
    (t.push ty).1.lookup? (t.push ty).2 = some ty := by
  have hpos : 0 < t.size := (Array.getElem?_eq_some_iff.1 h.reserved).1
  exact lookup?_eq_some_iff.2 ⟨Nat.ne_of_gt hpos, by simp [push]⟩

/-- What asking for a type does: the table stays canonical and grows, and has the type at the
identifier that it answers. -/
structure Gives (t : TypeTable) (answer : TypeTable × TypeId) (ty : Ty) : Prop where
  canonical : answer.1.Canonical
  grows : t.Extends answer.1
  lookup? : answer.1.lookup? answer.2 = some ty

namespace Canonical

theorem push (h : t.Canonical) (hbacked : t.Backed ty.shape)
    (hnew : ∀ n : Nat, t.types[n]? ≠ some ty) : t.Gives (t.push ty) ty := by
  have hext := push_extends t ty
  refine ⟨?_, hext, h.lookup?_push⟩
  refine
    { reserved := hext.types h.reserved
      entries := fun h0 hn => ?_
      unique := h.push_unique hnew
      signatures_pos := h.signatures_pos
      names_pos := h.names_pos
      exists_fn := fun h0 hslot => (h.exists_fn h0 hslot).imp fun _ => hext.lookup?
      signature_unique := h.signature_unique
      exists_named := fun h0 hslot => (h.exists_named h0 hslot).imp fun _ => .imp_right hext.lookup?
      byDecl := fun hd => (h.byDecl hd).imp fun _ => hext.lookup?
      named_first := fun {n d slot m} hn => ?_ }
  · obtain hold | ⟨-, rfl⟩ := getElem?_push_cases hn
    · exact (h.entries h0 hold).mono .refl id
    · exact hbacked.mono .refl id
  · obtain hold | ⟨rfl, rfl⟩ := getElem?_push_cases hn
    · exact (h.named_first hold).imp fun _ => .imp_right hext.lookup?
    -- a new variant comes after the type that its declaration leads to
    · obtain ⟨h0, x, hx, rfl⟩ := hbacked.named rfl
      obtain ⟨i, -, hi⟩ := h.exists_named h0 hx
      exact ⟨i, Nat.le_of_lt (lt_size_of_lookup? hi), hext.lookup? hi⟩

theorem intern_of_lookup? (h : t.Canonical) (hi : t.lookup? i = some ty) :
    t.intern ty = (t, i) := by
  have hvalid : ty.kind ≠ .invalid := (h.backed hi).proper.kind_ne_invalid
  unfold intern
  rw [if_neg hvalid]
  split
  next j hj =>
    obtain ⟨k, hk, rfl⟩ := Option.map_eq_some_iff.1 hj
    have hentry := h.lookup?_of_entry hvalid (lastIndex?_eq_some hk)
    rw [h.unique_id hentry hi]
  next hnone => exact absurd (lookup?_eq_some_iff.1 hi).2 (find?_eq_none hnone _)

theorem intern (h : t.Canonical) (hbacked : t.Backed ty.shape) : t.Gives (t.intern ty) ty := by
  have hvalid : ty.kind ≠ .invalid := hbacked.proper.kind_ne_invalid
  unfold TypeTable.intern
  rw [if_neg hvalid]
  split
  next i hfind =>
    obtain ⟨k, hk, rfl⟩ := Option.map_eq_some_iff.1 hfind
    exact ⟨h, .refl t, h.lookup?_of_entry hvalid (lastIndex?_eq_some hk)⟩
  next hnone => exact h.push hbacked (find?_eq_none hnone)

/-! ## Modifiers -/

theorem withModifier (h : t.Canonical) (hi : t.lookup? i = some ty) (m : Modifier) :
    t.Gives (t.withModifier i m) ⟨ty.shape, m⟩ := by
  unfold TypeTable.withModifier
  rw [hi]
  dsimp only
  split
  next heq =>
    subst heq
    exact ⟨h, .refl t, hi⟩
  next =>
    have hbacked : t.Backed ty.shape := h.backed hi
    exact h.intern hbacked

theorem withModifier_of_lookup? (h : t.Canonical) {m : Modifier} (hi : t.lookup? i = some ty)
    (hj : t.lookup? j = some ⟨ty.shape, m⟩) : t.withModifier i m = (t, j) := by
  unfold TypeTable.withModifier
  rw [hi]
  dsimp only
  split
  next heq =>
    subst heq
    rw [h.unique_id hi hj]
  next => exact h.intern_of_lookup? hj

/-! ## Function types -/

end Canonical

theorem findFn?_isSome_from {from_ : Nat} (hle : from_ ≤ i.index)
    (hlt : i.index < from_ + n) (hi : t.types[i.index]? = some (.ofShape (.fn slot)))
    (hs : t.signatures[slot]? = some s) : (t.findFn? s from_ n).isSome = true := by
  induction n generalizing from_ with
  | zero => exact absurd hlt (Nat.not_lt.2 hle)
  | succ n ih =>
    unfold findFn?
    rcases Nat.eq_or_lt_of_le hle with rfl | hlt'
    · rw [hi]
      change (if t.signatures[slot]? = some s then some _ else _).isSome = true
      rw [if_pos hs]
      rfl
    · have hrest := ih hlt' (by omega)
      split
      · split
        · rfl
        · exact hrest
      · exact hrest

theorem findFn?_isSome (hi : t.lookup? i = some (.ofShape (.fn slot)))
    (hs : t.signatures[slot]? = some s) : (t.findFn? s 1 (t.types.size - 1)).isSome = true := by
  obtain ⟨h0, hentry⟩ := lookup?_eq_some_iff.1 hi
  have hlt : i.index < t.types.size := lt_size_of_lookup? hi
  exact findFn?_isSome_from (by omega) (by omega) hentry hs

namespace Canonical

/-- A signature that a function type has leads to that type. -/
theorem fn_of_lookup? (h : t.Canonical) {params : List TypeId} {result : TypeId} {slot : Nat}
    (hi : t.lookup? i = some (.ofShape (.fn slot)))
    (hs : t.signatures[slot]? = some ⟨params, result⟩) : t.fn params result = (t, i) := by
  obtain ⟨j, hj⟩ := Option.isSome_iff_exists.1 (findFn?_isSome hi hs)
  obtain ⟨slot', hlook, hs'⟩ := findFn?_eq_some Nat.one_ne_zero hj
  -- the type that was found has the same slot, for a signature has one slot only
  have hslot : slot' = slot :=
    h.signature_unique ((h.backed hlook).fn rfl).1 ((h.backed hi).fn rfl).1 hs' hs
  subst hslot
  simp only [fn, hj, h.unique_id hlook hi]

end Canonical

def addFn (t : TypeTable) (s : Signature) : TypeTable :=
  { t with
    types := t.types.push (.ofShape (.fn t.signatures.size))
    signatures := t.signatures.push s }

namespace Canonical

theorem addFn (h : t.Canonical) {s : Signature}
    (hnew : ∀ {k : Nat}, 0 < k → t.signatures[k]? ≠ some s) :
    t.Gives (t.addFn s, ⟨t.types.size⟩) (.ofShape (.fn t.signatures.size)) := by
  have hext : t.Extends (t.addFn s) := ⟨getElem?_push_of_some, getElem?_push_of_some⟩
  have hlast : (t.addFn s).lookup? ⟨t.types.size⟩ = some (.ofShape (.fn t.signatures.size)) :=
    h.lookup?_push
  have hfresh (n : Nat) : t.types[n]? ≠ some (.ofShape (.fn t.signatures.size)) := by
    intro hn
    have hlook := h.lookup?_of_entry (by nofun) hn
    exact absurd ((h.backed hlook).fn rfl).2 (Nat.lt_irrefl _)
  refine ⟨?_, hext, hlast⟩
  refine
    { reserved := hext.types h.reserved
      entries := fun h0 hn => ?_
      unique := h.push_unique hfresh
      signatures_pos := by simp [TypeTable.addFn]
      names_pos := h.names_pos
      exists_fn := fun {slot} h0 hslot => ?_
      signature_unique := fun hk hl hks hls => ?_
      exists_named := fun h0 hslot => (h.exists_named h0 hslot).imp fun _ => .imp_right hext.lookup?
      byDecl := fun hd => (h.byDecl hd).imp fun _ => hext.lookup?
      named_first := fun hn => ?_ }
  · obtain hold | ⟨-, rfl⟩ := getElem?_push_cases hn
    · exact (h.entries h0 hold).mono (by simp [TypeTable.addFn]) id
    · refine ⟨fun _ hs => (nomatch hs), ?_, fun hs => (nomatch hs)⟩
      rintro slot ⟨⟩
      exact ⟨h.signatures_pos, by simp [TypeTable.addFn]⟩
  · have hsize : slot < t.signatures.size + 1 := by simpa [TypeTable.addFn] using hslot
    rcases Nat.lt_succ_iff_lt_or_eq.1 hsize with hlt | rfl
    · exact (h.exists_fn h0 hlt).imp fun _ => hext.lookup?
    · exact ⟨_, hlast⟩
  · obtain hks | ⟨rfl, rfl⟩ := getElem?_push_cases hks <;>
      obtain hls | ⟨rfl, hs⟩ := getElem?_push_cases hls
    · exact h.signature_unique hk hl hks hls
    · exact absurd (hs ▸ hks) (hnew hk)
    · exact absurd hls (hnew hl)
    · rfl
  · obtain hold | ⟨-, hty⟩ := getElem?_push_cases hn
    · exact (h.named_first hold).imp fun _ => .imp_right hext.lookup?
    · cases hty

theorem fn (h : t.Canonical) (params : List TypeId) (result : TypeId) :
    ∃ slot, t.Gives (t.fn params result) (.ofShape (.fn slot)) ∧
      (t.fn params result).1.signatures[slot]? = some ⟨params, result⟩ := by
  cases hfind : t.findFn? ⟨params, result⟩ 1 (t.types.size - 1) with
  | some i =>
    obtain ⟨slot, hlook, hsig⟩ := findFn?_eq_some Nat.one_ne_zero hfind
    rw [h.fn_of_lookup? hlook hsig]
    exact ⟨slot, ⟨h, .refl t, hlook⟩, hsig⟩
  | none =>
    have heq : t.fn params result = (t.addFn ⟨params, result⟩, ⟨t.types.size⟩) := by
      simp only [TypeTable.fn, hfind, TypeTable.push, TypeTable.addFn]
    -- every slot in use belongs to a type, so a signature that no type has is in none of them
    have hnew {k : Nat} (h0 : 0 < k) : t.signatures[k]? ≠ some ⟨params, result⟩ := by
      intro hk
      obtain ⟨i, hi⟩ := h.exists_fn h0 (Array.getElem?_eq_some_iff.1 hk).1
      have hsome := findFn?_isSome hi hk
      rw [hfind] at hsome
      cases hsome
    rw [heq]
    exact ⟨t.signatures.size, h.addFn hnew, by simp [TypeTable.addFn]⟩

/-! ## Declared types -/

theorem named_of_lookup? (h : t.Canonical) {d : DeclId} {slot : Nat} (name : Text)
    (hi : t.lookup? i = some (.ofShape (.named d slot))) : t.named d name = (t, i) := by
  obtain ⟨h0, x, hx, rfl⟩ := (h.backed hi).named rfl
  obtain ⟨j, hj, hlook⟩ := h.exists_named h0 hx
  simp only [named, hj, h.unique_id hlook hi]

end Canonical

def addNamed (t : TypeTable) (d : DeclId) (name : Text) : TypeTable :=
  { t with
    types := t.types.push (.ofShape (.named d t.names.size))
    names := t.names.push ⟨d, name⟩
    byDecl := (d, ⟨t.types.size⟩) :: t.byDecl }

namespace Canonical

theorem addNamed (h : t.Canonical) {d : DeclId} (name : Text) (hnew : t.byDecl.lookup d = none) :
    t.Gives (t.addNamed d name, ⟨t.types.size⟩) (.ofShape (.named d t.names.size)) := by
  have hext : t.Extends (t.addNamed d name) := ⟨getElem?_push_of_some, id⟩
  have hlast : (t.addNamed d name).lookup? ⟨t.types.size⟩ =
    some (.ofShape (.named d t.names.size)) :=
    h.lookup?_push
  have hfresh (n : Nat) : t.types[n]? ≠ some (.ofShape (.named d t.names.size)) := by
    intro hn
    have hlook := h.lookup?_of_entry (by nofun) hn
    obtain ⟨-, x, hx, -⟩ := (h.backed hlook).named rfl
    exact absurd (Array.getElem?_eq_some_iff.1 hx).1 (Nat.lt_irrefl _)
  refine ⟨?_, hext, hlast⟩
  refine
    { reserved := hext.types h.reserved
      entries := fun h0 hn => ?_
      unique := h.push_unique hfresh
      signatures_pos := h.signatures_pos
      names_pos := by simp [TypeTable.addNamed]
      exists_fn := fun h0 hslot => (h.exists_fn h0 hslot).imp fun _ => hext.lookup?
      signature_unique := h.signature_unique
      exists_named := fun {slot x} h0 hslot => ?_
      byDecl := fun {d' i} hd => ?_
      named_first := fun hn => ?_ }
  · obtain hold | ⟨-, rfl⟩ := getElem?_push_cases hn
    · exact (h.entries h0 hold).mono .refl getElem?_push_of_some
    · refine ⟨fun _ hs => (nomatch hs), fun hs => (nomatch hs), ?_⟩
      rintro d' slot ⟨⟩
      exact ⟨h.names_pos, ⟨d, name⟩, by simp [TypeTable.addNamed], rfl⟩
  · obtain hold | ⟨rfl, rfl⟩ := getElem?_push_cases hslot
    · obtain ⟨i, hd, hi⟩ := h.exists_named h0 hold
      have hne : x.decl ≠ d := by
        rintro rfl
        rw [hnew] at hd
        cases hd
      refine ⟨i, ?_, hext.lookup? hi⟩
      simp only [TypeTable.addNamed, List.lookup_cons, beq_eq_false_iff_ne.2 hne, hd]
    · exact ⟨_, by simp only [TypeTable.addNamed, List.lookup_cons, beq_self_eq_true], hlast⟩
  · simp only [TypeTable.addNamed, List.lookup_cons] at hd
    split at hd
    next heq =>
      cases hd
      rw [eq_of_beq heq]
      exact ⟨_, hlast⟩
    next => exact (h.byDecl hd).imp fun _ => hext.lookup?
  · obtain hold | ⟨rfl, hty⟩ := getElem?_push_cases hn
    · exact (h.named_first hold).imp fun _ => .imp_right hext.lookup?
    · cases hty
      exact ⟨_, .refl, hlast⟩

theorem named (h : t.Canonical) (d : DeclId) (name : Text) :
    ∃ slot, t.Gives (t.named d name) (.ofShape (.named d slot)) := by
  cases hfind : t.byDecl.lookup d with
  | some i =>
    obtain ⟨slot, hlook⟩ := h.byDecl hfind
    rw [h.named_of_lookup? name hlook]
    exact ⟨slot, h, .refl t, hlook⟩
  | none =>
    have heq : t.named d name = (t.addNamed d name, ⟨t.types.size⟩) := by
      simp only [TypeTable.named, hfind, TypeTable.push, TypeTable.addNamed]
    rw [heq]
    exact ⟨t.names.size, h.addNamed name hfind⟩

/-! ## Requests -/

/-- Every request keeps table and lists in step, and every type at its identifier. -/
theorem ask (h : t.Canonical) (r : Request) : (t.ask r).1.Canonical ∧ t.Extends (t.ask r).1 := by
  have hmodifier (i : TypeId) (m : Modifier) :
      (t.withModifier i m).1.Canonical ∧ t.Extends (t.withModifier i m).1 := by
    cases hi : t.lookup? i with
    | none =>
      rw [withModifier_of_lookup?_none hi]
      exact ⟨h, .refl t⟩
    | some ty => exact ⟨(h.withModifier hi m).canonical, (h.withModifier hi m).grows⟩
  cases r with
  | shape s hs =>
    have hgives : t.Gives (t.intern (.ofShape s)) (.ofShape s) := h.intern (backed_of_isMade hs)
    exact ⟨hgives.canonical, hgives.grows⟩
  | fn params result =>
    obtain ⟨slot, hgives, -⟩ := h.fn params result
    exact ⟨hgives.canonical, hgives.grows⟩
  | named d name =>
    obtain ⟨slot, hgives⟩ := h.named d name
    exact ⟨hgives.canonical, hgives.grows⟩
  | withModifier i m => exact hmodifier i m
  | unqualified i => exact hmodifier i .default
  | var v =>
    have hgives : t.Gives (t.var v) (.ofShape (.var v)) := h.intern (backed_of_isMade rfl)
    exact ⟨hgives.canonical, hgives.grows⟩

theorem after (h : t.Canonical) (rs : List Request) :
    (t.after rs).Canonical ∧ t.Extends (t.after rs) := by
  induction rs generalizing t with
  | nil => exact ⟨h, .refl t⟩
  | cons r rs ih =>
    obtain ⟨hcanonical, hgrows⟩ := h.ask r
    exact ⟨(ih hcanonical).1, hgrows.trans (ih hcanonical).2⟩

end Canonical

/-! ## What the table answers -/

namespace Canonical

section

variable (h : t.Canonical)
include h

theorem nodup : t.types.toList.Nodup := by
  refine List.pairwise_iff_getElem.2 fun m n hm hn hlt heq => ?_
  have hentry {k : Nat} (hk : k < t.types.toList.length) :
    t.types[k]? = some t.types.toList[k] := by
    rw [← getElem?_toList, List.getElem?_eq_getElem hk]
  exact absurd (h.unique (hentry hm) (heq ▸ hentry hn)) (Nat.ne_of_lt hlt)

/-- Two signatures lead to one type only if they are equal, whatever was asked for in between. -/
theorem fn_eq_iff (later : List Request) {params params' : List TypeId} {result result' : TypeId} :
    (t.fn params result).2 = (((t.fn params result).1.after later).fn params' result').2 ↔
      params = params' ∧ result = result' := by
  obtain ⟨slot, hgives, hsig⟩ := h.fn params result
  obtain ⟨hcanonical, hext⟩ := hgives.canonical.after later
  constructor
  · intro heq
    obtain ⟨slot', hgives', hsig'⟩ := hcanonical.fn params' result'
    have hgrows := hext.trans hgives'.grows
    -- the first type is still there, and it is the second one
    have hfirst := hgrows.lookup? hgives.lookup?
    rw [heq, hgives'.lookup?] at hfirst
    cases hfirst
    have hboth := (hgrows.signatures hsig).symm.trans hsig'
    cases hboth
    exact ⟨rfl, rfl⟩
  · rintro ⟨rfl, rfl⟩
    rw [hcanonical.fn_of_lookup? (hext.lookup? hgives.lookup?) (hext.signatures hsig)]

theorem named_eq_iff (later : List Request) {d d' : DeclId} {name name' : Text} :
    (t.named d name).2 = (((t.named d name).1.after later).named d' name').2 ↔ d = d' := by
  obtain ⟨slot, hgives⟩ := h.named d name
  obtain ⟨hcanonical, hext⟩ := hgives.canonical.after later
  constructor
  · intro heq
    obtain ⟨slot', hgives'⟩ := hcanonical.named d' name'
    have hfirst := (hext.trans hgives'.grows).lookup? hgives.lookup?
    rw [heq, hgives'.lookup?] at hfirst
    cases hfirst
    rfl
  · rintro rfl
    rw [hcanonical.named_of_lookup? name' (hext.lookup? hgives.lookup?)]

/-- Types that differ in their modifiers only have their other variants in common. -/
theorem withModifier_eq {ty' : Ty} (hi : t.lookup? i = some ty)
    (hj : t.lookup? j = some ty') (hshape : ty'.shape = ty.shape) (m : Modifier) :
    ((t.withModifier j m).1.withModifier i m).2 = (t.withModifier j m).2 := by
  have hgives := h.withModifier hj m
  rw [hshape] at hgives
  rw [hgives.canonical.withModifier_of_lookup? (hgives.grows.lookup? hi) hgives.lookup?]

theorem withModifier_withModifier (i : TypeId) (m n : Modifier)
    (later : List Request) :
    let u := (t.withModifier i m).1.after later
    let twice := u.withModifier (t.withModifier i m).2 n
    (twice.1.withModifier i n).2 = twice.2 := by
  intro u
  cases hi : t.lookup? i with
  | none =>
    -- nothing was done, and nothing is done twice
    have hcanonical : u.Canonical := by
      simp only [u, withModifier_of_lookup?_none hi]
      exact (h.after later).1
    simp only [withModifier_of_lookup?_none hi]
    cases hu : u.lookup? i with
    | none => simp only [withModifier_of_lookup?_none hu]
    | some ty => exact hcanonical.withModifier_eq hu hu rfl n
  | some ty =>
    have hgives := h.withModifier hi m
    obtain ⟨hcanonical, hext⟩ := hgives.canonical.after later
    exact hcanonical.withModifier_eq (hext.lookup? (hgives.grows.lookup? hi))
      (hext.lookup? hgives.lookup?) rfl n

theorem unqualified_withModifier (hi : t.lookup? i = some ty)
    (hplain : ty.modifier = .default) (m : Modifier) (later : List Request) :
    (((t.withModifier i m).1.after later).unqualified (t.withModifier i m).2).2 = i := by
  have hgives := h.withModifier hi m
  obtain ⟨hcanonical, hext⟩ := hgives.canonical.after later
  have hold : ((t.withModifier i m).1.after later).lookup? i = some ⟨ty.shape, .default⟩ := by
    rw [← hplain]
    exact hext.lookup? (hgives.grows.lookup? hi)
  rw [unqualified, hcanonical.withModifier_of_lookup? (hext.lookup? hgives.lookup?) hold]

end

end Canonical

/-- Types are canonical, whatever a table is asked for and in whatever order. Identifiers are handed
out one after the other and keep their types; no type has two of them, and asking for a type that is
there gives its identifier; signatures lead to one type if they are equal, and only then, and so do
declarations, whatever names are given; the last of several modifiers counts, so taking the modifier
off leads back to where none was.

Between two of the answers that are compared, the table may be asked for anything else (`later`). -/
theorem types_are_canonical (before later : List Request) :
    let t := initial.after before
    (t.size ≤ (t.after later).size ∧
      ∀ i ty, t.lookup? i = some ty → (t.after later).lookup? i = some ty) ∧
    t.types.toList.Nodup ∧
    (∀ i ty, t.lookup? i = some ty → t.intern ty = (t, i)) ∧
    (∀ params result params' result',
      (t.fn params result).2 = (((t.fn params result).1.after later).fn params' result').2 ↔
        params = params' ∧ result = result') ∧
    (∀ d name d' name',
      (t.named d name).2 = (((t.named d name).1.after later).named d' name').2 ↔ d = d') ∧
    (∀ i m n,
      let u := (t.withModifier i m).1.after later
      let twice := u.withModifier (t.withModifier i m).2 n
      (twice.1.withModifier i n).2 = twice.2) ∧
    (∀ i ty m, t.lookup? i = some ty → ty.modifier = .default →
      (((t.withModifier i m).1.after later).unqualified (t.withModifier i m).2).2 = i) := by
  intro t
  have h : t.Canonical := (initial_canonical.after before).1
  obtain ⟨-, hext⟩ := h.after later
  refine ⟨⟨hext.size_le, fun i ty hi => hext.lookup? hi⟩, h.nodup, fun i ty hi =>
    h.intern_of_lookup? hi, fun _ _ _ _ => h.fn_eq_iff later, fun _ _ _ _ => h.named_eq_iff later,
    fun i m n => h.withModifier_withModifier i m n later,
    fun i ty m hi hplain => h.unqualified_withModifier hi hplain m later⟩

/-- A table that was asked for a function type and for two variants of it: the signature still leads
to the type without modifier, and so does taking a modifier off. -/
theorem types_are_canonical_fn :
    let t := initial.after [.fn [Builtin.int] Builtin.bool, .withModifier 22 .const]
    t.lookup? 22 = some (.ofShape (.fn 1)) ∧ t.lookup? 23 = some ⟨.fn 1, .const⟩ ∧
    t.intern ⟨.fn 1, .const⟩ = (t, 23) ∧
    (((t.withModifier 22 .mutable).1.after [.named 17 "T"]).unqualified
      (t.withModifier 22 .mutable).2).2 = 22 := by
  intro t
  obtain ⟨-, -, hintern, -, -, -, hunqualified⟩ := types_are_canonical
    [.fn [Builtin.int] Builtin.bool, .withModifier 22 .const] [.named 17 "T"]
  have h22 : t.lookup? 22 = some (.ofShape (.fn 1)) := by decide +kernel
  have h23 : t.lookup? 23 = some ⟨.fn 1, .const⟩ := by decide +kernel
  exact ⟨h22, h23, hintern 23 _ h23, hunqualified 22 _ .mutable h22 rfl⟩

end TypeTable

end UnitCheck
