import UnitCheck.Proofs.Ty.Denotes

/-!
# Types written out in full

A `TypeTerm` leaves out what fitting ignores. A `Form` is a type written out with everything that
the table holds of it, binding modifiers and the lengths of all arrays included, so that two types
have the same form exactly if a program cannot tell them apart.

`TypeTable.formOf σ i` writes out type `i` with each variable `v` replaced by the form `σ v`. The
parts of a type come before it in the table, so its position bounds the depth. Proofs do not open
that recursion: `formOf_node`, `formOf_var` and `formOf_missing` are its equations, and
`formOf_extends` says that growth of the table changes no form.
-/

namespace UnitCheck

inductive Head
  | atom (a : Atom)
  | array (storage : Storage) (count : UInt32)
  | reference (isMut : Bool)
  | pointer
  | optional
  | fn
  | var (v : VarId)
deriving DecidableEq

def Head.isVar : Head → Bool
  | var _ => true
  | _ => false

def Shape.head : Shape → Head
  | .plain k => .atom (.plain k)
  | .int w => .atom (.int w)
  | .uint w => .atom (.uint w)
  | .float w => .atom (.float w)
  | .named d _ => .atom (.named d)
  | .array s _ n => .array s n
  | .reference isMut _ => .reference isMut
  | .pointer _ => .pointer
  | .optional _ => .optional
  | .fn _ => .fn
  | .var v => .var v

theorem Shape.head_withElem (s : Shape) (elem : TypeId) : (s.withElem elem).head = s.head := by
  cases s <;> rfl

theorem Shape.kind_eq_of_head {sa sb : Shape} (h : sa.head = sb.head) : sa.kind = sb.kind := by
  cases sa <;> cases sb <;> cases h <;> rfl

/-- The parts of a type, by its view; those of a function type are its result and its parameters. -/
def View.parts : View → List TypeId
  | wrap _ elem => [elem]
  | fn ps r => r :: ps
  | missing | atom _ | var _ => []

def Modifier.under (inner outer : Modifier) : Modifier := if outer = .default then inner else outer

@[simp] theorem Modifier.default_under (m : Modifier) : Modifier.under .default m = m := by
  unfold Modifier.under
  split
  · exact .symm ‹_›
  · rfl

theorem Modifier.under_self (m : Modifier) : m.under m = m := ite_self m

inductive Form
  /-- There is no such type. -/
  | missing
  | node (m : Modifier) (head : Head) (parts : List Form)

namespace Form

abbrev error : Form := node .default (.atom (.plain .error)) []

abbrev var (v : VarId) : Form := node .default (.var v) []

def qualified (outer : Modifier) : Form → Form
  | missing => missing
  | node m h ps => node (m.under outer) h ps

@[simp] theorem qualified_default (F : Form) : F.qualified .default = F := by
  cases F <;> rfl

mutual

def all (p : Modifier → Head → Bool) : Form → Bool
  | missing => true
  | node m h ps => p m h && allOf p ps

/-- Whether every constructor in some forms has a property. -/
def allOf (p : Modifier → Head → Bool) : List Form → Bool
  | [] => true
  | F :: Fs => all p F && allOf p Fs

end

mutual

def height : Form → Nat
  | missing => 0
  | node _ _ ps => heightOf ps

/-- One more than the greatest height of some forms, zero if there are none. -/
def heightOf : List Form → Nat
  | [] => 0
  | F :: Fs => max (height F + 1) (heightOf Fs)

end

def isSettled (F : Form) : Bool := F.all fun _ h => !h.isVar

def isUnmodified (F : Form) : Bool := F.all fun m _ => m = .default

variable {p : Modifier → Head → Bool} {F : Form} {Fs : List Form}

theorem allOf_iff : allOf p Fs = true ↔ ∀ F ∈ Fs, F.all p = true := by
  induction Fs with
  | nil => simp [allOf]
  | cons F Fs ih => simp [allOf, ih]

variable {m : Modifier} {h : Head}

theorem all_node : (node m h Fs).all p = true ↔ p m h = true ∧ ∀ F ∈ Fs, F.all p = true := by
  rw [all, Bool.and_eq_true, allOf_iff]

theorem height_lt_heightOf (hF : F ∈ Fs) : F.height < heightOf Fs := by
  induction Fs with
  | nil => cases hF
  | cons G Fs ih =>
    rw [heightOf]
    obtain rfl | hF := List.mem_cons.1 hF
    · omega
    · have := ih hF
      omega

theorem height_lt (hF : F ∈ Fs) : F.height < (node m h Fs).height :=
  height_lt_heightOf hF

theorem heightOf_map_le {α : Type} {f g : α → Form} {ps : List α}
    (hle : ∀ p ∈ ps, (f p).height ≤ (g p).height) : heightOf (ps.map f) ≤ heightOf (ps.map g) := by
  induction ps with
  | nil => exact .refl
  | cons p ps ih =>
    obtain ⟨hp, hps⟩ := List.forall_mem_cons.1 hle
    simp only [List.map_cons, heightOf]
    have := ih hps
    omega

end Form

namespace TypeTable

variable {t t' : TypeTable} {i : TypeId} {ty : Ty} {σ : VarId → Form}

/-! ## Parts -/

variable {p : TypeId} {n : Nat} {v : VarId} {m : Modifier}

theorem WellFormed.parts_lt (wf : t.WellFormed) (hp : p ∈ (t.view i).parts) :
    p.index < i.index := by
  cases hv : t.view i with
  | missing | atom | var =>
    rw [hv] at hp
    cases hp
  | wrap w elem =>
    rw [hv] at hp
    rw [List.mem_singleton.1 hp]
    exact wf.view_wrap_lt hv
  | fn ps r =>
    rw [hv] at hp
    exact wf.view_fn_lt hv p hp

theorem Over.part (h : t.Over n i) (hp : p ∈ (t.view i).parts) : t.Over n p := by
  cases hv : t.view i with
  | missing | atom | var =>
    rw [hv] at hp
    cases hp
  | wrap w elem =>
    rw [hv] at hp
    rw [List.mem_singleton.1 hp]
    exact h.elem hv
  | fn ps r =>
    rw [hv] at hp
    obtain ⟨hps, hr⟩ := h.signature hv
    exact (List.mem_cons.1 hp).elim (fun heq => heq ▸ hr) (hps p)

theorem head_of_view_fn {ps : List TypeId} {r : TypeId}
    (hlook : t.lookup? i = some ty) (hview : t.view i = .fn ps r) : ty.shape.head = .fn := by
  obtain ⟨slot, m, hfn, -, -⟩ :=
    signature?_eq_some_iff.1 (signature?_of_view hview)
  cases hlook.symm.trans hfn
  rfl

theorem shape_ne_var (hlook : t.lookup? i = some ty)
    (hview : ∀ v, t.view i ≠ .var v) (v : VarId) : ty.shape ≠ .var v := by
  rintro hv
  obtain ⟨s, m⟩ := ty
  cases hv
  exact hview v (view_of_var hlook)

/-! ## Forms -/

/-- The form of a type, looking `n` levels deep. -/
def formAt (t : TypeTable) (σ : VarId → Form) : Nat → TypeId → Form
  | 0, _ => .missing
  | n + 1, i =>
    match t.lookup? i with
    | none => .missing
    | some ⟨.var v, m⟩ => (σ v).qualified m
    | some ⟨s, m⟩ => .node m s.head ((t.view i).parts.map (formAt t σ n))

/-- The form of a type, with variables replaced by what `σ` has for them. -/
def formOf (t : TypeTable) (σ : VarId → Form) (i : TypeId) : Form := t.formAt σ (i.index + 1) i

theorem formAt_succ (n : Nat) (h : t.lookup? i = some ty) (hv : ∀ v, ty.shape ≠ .var v) :
    t.formAt σ (n + 1) i =
      .node ty.modifier ty.shape.head ((t.view i).parts.map (t.formAt σ n)) := by
  obtain ⟨s, m⟩ := ty
  rw [formAt, h]
  cases s with
  | var v => exact absurd rfl (hv v)
  | plain | int | uint | float | array | reference | pointer | optional | named | fn => rfl

theorem formAt_var (n : Nat) (h : t.lookup? i = some ⟨.var v, m⟩) :
    t.formAt σ (n + 1) i = (σ v).qualified m := by
  rw [formAt, h]

theorem formAt_missing (n : Nat) (h : t.lookup? i = none) : t.formAt σ n i = .missing := by
  cases n with
  | zero => rfl
  | succ n => rw [formAt, h]

/-- Looking deeper than the position of a type shows no more. -/
theorem WellFormed.formAt_eq (wf : t.WellFormed) {m : Nat} (hn : i.index < n) (hm : i.index < m) :
    t.formAt σ n i = t.formAt σ m i := by
  induction n generalizing i m with
  | zero => omega
  | succ n ih =>
    obtain _ | m := m
    · omega
    cases hlook : t.lookup? i with
    | none => rw [formAt_missing _ hlook, formAt_missing _ hlook]
    | some ty =>
      by_cases hvar : ∃ v, ty.shape = .var v
      · obtain ⟨v, hv⟩ := hvar
        obtain ⟨s, modifier⟩ := ty
        cases hv
        rw [formAt_var n hlook, formAt_var m hlook]
      · have hvar : ∀ v, ty.shape ≠ .var v := fun v hv => hvar ⟨v, hv⟩
        rw [formAt_succ n hlook hvar, formAt_succ m hlook hvar]
        congr 1
        refine List.map_congr_left fun p hp => ?_
        have hlt := wf.parts_lt hp
        exact ih (by omega) (by omega)

theorem formOf_var (h : t.lookup? i = some ⟨.var v, m⟩) : t.formOf σ i = (σ v).qualified m :=
  formAt_var _ h

theorem WellFormed.formOf_node (wf : t.WellFormed) (h : t.lookup? i = some ty)
    (hv : ∀ v, ty.shape ≠ .var v) :
    t.formOf σ i = .node ty.modifier ty.shape.head ((t.view i).parts.map (t.formOf σ)) := by
  rw [formOf, formAt_succ _ h hv]
  congr 1
  exact List.map_congr_left fun p hp => wf.formAt_eq (wf.parts_lt hp) .refl

theorem WellFormed.formOf_of_parts (wf : t.WellFormed) {fs : List Form} (h : t.lookup? i = some ty)
    (hview : ∀ v, t.view i ≠ .var v) (hparts : (t.view i).parts.map (t.formOf σ) = fs) :
    t.formOf σ i = .node ty.modifier ty.shape.head fs := by
  rw [wf.formOf_node h (shape_ne_var h hview), hparts]

theorem WellFormed.formOf_extends (wf : t.WellFormed) (wf' : t'.WellFormed) (ht : t.Extends t')
    (hi : i.index < t.size) : t'.formOf σ i = t.formOf σ i := by
  generalize hn : i.index = n
  induction n using Nat.strongRecOn generalizing i with
  | _ n ih =>
    cases hlook : t.lookup? i with
    | none =>
      have h0 : i.index = 0 := by
        by_contra hne
        obtain ⟨ty, hty⟩ := exists_lookup? hne hi
        cases hlook.symm.trans hty
      obtain ⟨k⟩ := i
      subst h0
      rfl
    | some ty =>
      have hlook' := ht.lookup? hlook
      by_cases hvar : ∃ v, ty.shape = .var v
      · obtain ⟨v, hv⟩ := hvar
        obtain ⟨s, m⟩ := ty
        cases hv
        rw [formOf_var hlook, formOf_var hlook']
      · have hvar : ∀ v, ty.shape ≠ .var v := fun v hv => hvar ⟨v, hv⟩
        rw [wf.formOf_node hlook hvar, wf'.formOf_node hlook' hvar, ht.view_eq wf hlook]
        congr 1
        refine List.map_congr_left fun p hp => ?_
        have hlt := wf.parts_lt hp
        exact ih p.index (by omega) (by omega) rfl

end TypeTable

end UnitCheck
