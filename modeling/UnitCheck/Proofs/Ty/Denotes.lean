import UnitCheck.Proofs.Ty.Term

/-!
# What identifiers of types denote

`TypeTable.view` looks one level into a type: at its constructor and the identifiers of its parts,
the signature of a function type included. The modifier is not seen. Everything here goes through
that view, so a proof has four constructors to treat instead of the eleven shapes of a table entry.

`Denotes` reads a whole type through the bindings of variables, `Over` says that a type is in the
table and has only variables that were handed out. Both survive the growth of the table.
-/

namespace UnitCheck

inductive View
  | missing
  | atom (a : Atom)
  | wrap (w : Wrapper) (elem : TypeId)
  | fn (params : List TypeId) (result : TypeId)
  | var (v : VarId)
deriving DecidableEq

def Wrapper.ofArray : Storage → UInt32 → Wrapper
  | .stack, n => stack n
  | .heap, _ => heap
  | .slice, _ => slice

def Shape.atom? : Shape → Option Atom
  | .plain k => some (.plain k)
  | .int w => some (.int w)
  | .uint w => some (.uint w)
  | .float w => some (.float w)
  | .named d _ => some (.named d)
  | _ => none

def Shape.wrap? : Shape → Option (Wrapper × TypeId)
  | .array s elem n => some (.ofArray s n, elem)
  | .reference isMut elem => some (.reference isMut, elem)
  | .pointer elem => some (.pointer, elem)
  | .optional elem => some (.optional, elem)
  | _ => none

def Shape.withElem : Shape → TypeId → Shape
  | .array s _ n, elem => .array s elem n
  | .reference isMut _, elem => .reference isMut elem
  | .pointer _, elem => .pointer elem
  | .optional _, elem => .optional elem
  | s, _ => s

namespace TypeTable

/-- One level of the type with an identifier. A function type without signature has no parts. -/
def view (t : TypeTable) (i : TypeId) : View :=
  match t.lookup? i with
  | none => .missing
  | some ty =>
    match ty.shape with
    | .plain k => .atom (.plain k)
    | .int w => .atom (.int w)
    | .uint w => .atom (.uint w)
    | .float w => .atom (.float w)
    | .named d _ => .atom (.named d)
    | .array s elem n => .wrap (.ofArray s n) elem
    | .reference isMut elem => .wrap (.reference isMut) elem
    | .pointer elem => .wrap .pointer elem
    | .optional elem => .wrap .optional elem
    | .fn _ =>
      match t.signature? i with
      | some s => .fn s.params s.result
      | none => .atom (.plain .fn)
    | .var v => .var v

variable {t t' : TypeTable} {i j : TypeId} {ty : Ty} {ps : List TypeId} {w : Wrapper} {r : TypeId}
  {v : VarId}

theorem view_eq_missing_iff : t.view i = .missing ↔ t.lookup? i = none := by
  unfold view
  constructor
  · intro h
    split at h
    · assumption
    · split at h <;> first | cases h | (split at h <;> cases h)
  · intro h
    rw [h]

@[simp] theorem view_zero (t : TypeTable) : t.view 0 = .missing := rfl

theorem lookup?_of_view_var (h : t.view i = .var v) : ∃ m, t.lookup? i = some ⟨.var v, m⟩ := by
  unfold view at h
  split at h
  · cases h
  next ty hlook =>
    obtain ⟨s, m⟩ := ty
    dsimp only at h
    split at h <;> first | cases h | skip
    · split at h <;> cases h
    · exact ⟨m, hlook⟩

theorem lookup?_of_view_reference {isMut : Bool} {elem : TypeId}
    (h : t.view i = .wrap (.reference isMut) elem) :
    ∃ m, t.lookup? i = some ⟨.reference isMut elem, m⟩ := by
  unfold view at h
  split at h
  · cases h
  next ty hlook =>
    obtain ⟨s, m⟩ := ty
    cases s with
    | reference =>
      cases h
      exact ⟨m, hlook⟩
    | array s elem n => cases s <;> cases h
    | fn slot =>
      dsimp only at h
      split at h <;> cases h
    | plain | int | uint | float | pointer | optional | named | var => cases h

variable {a : Atom} {m : Modifier} {s : Shape} {n : Nat} {elem' : TypeId}

theorem kind_of_view_atom (h : t.view i = .atom a) : t.kind i = a.kind := by
  unfold view at h
  unfold kind
  split at h
  · cases h
  next ty hlook =>
    rw [hlook]
    obtain ⟨s, m⟩ := ty
    cases s with
    | plain | int | uint | float | named =>
      cases h
      rfl
    | fn slot =>
      dsimp only at h
      split at h
      · cases h
      · cases h
        rfl
    | array | reference | pointer | optional | var => cases h

theorem view_of_var (h : t.lookup? i = some ⟨.var v, m⟩) : t.view i = .var v := by
  unfold view
  rw [h]

/-- A view depends on the shape of a type only, not on its modifier. -/
theorem view_congr {m' : Modifier} (hi : t.lookup? i = some ⟨s, m⟩)
    (hj : t.lookup? j = some ⟨s, m'⟩) : t.view i = t.view j := by
  unfold view signature?
  rw [hi, hj]
  cases s <;> rfl

theorem Extends.view_eq (ht : t.Extends t') (wf : t.WellFormed) (h : t.lookup? i = some ty) :
    t'.view i = t.view i := by
  obtain ⟨s, m⟩ := ty
  have h' := ht.lookup? h
  cases s with
  | fn slot =>
    obtain ⟨sig, hsig, -⟩ := wf.exists_signature h
    unfold view
    rw [h, h', hsig, ht.signature? hsig]
  | plain | int | uint | float | array | reference | pointer | optional | named | var =>
    unfold view
    rw [h, h']

theorem Extends.view_eq_of_ne (ht : t.Extends t') (wf : t.WellFormed) (h : t.view i ≠ .missing) :
    t'.view i = t.view i := by
  obtain ⟨ty, hty⟩ := Option.ne_none_iff_exists'.1 fun hnone => h (view_eq_missing_iff.2 hnone)
  exact ht.view_eq wf hty

theorem view_of_atom (h : t.lookup? i = some ty) (ha : ty.shape.atom? = some a) :
    t.view i = .atom a := by
  obtain ⟨s, m⟩ := ty
  unfold view
  rw [h]
  cases s with
  | plain | int | uint | float | named =>
    cases ha
    rfl
  | array | reference | pointer | optional | fn | var => cases ha

theorem view_of_wrap {elem : TypeId} (h : t.lookup? i = some ty)
    (hw : ty.shape.wrap? = some (w, elem)) : t.view i = .wrap w elem := by
  obtain ⟨s, m⟩ := ty
  unfold view
  rw [h]
  cases s with
  | array | reference | pointer | optional =>
    cases hw
    rfl
  | plain | int | uint | float | named | fn | var => cases hw

theorem admits_of_wrap {elem : TypeId}
    (hw : s.wrap? = some (w, elem)) (helem : elem.index < n) : t.Admits n s := by
  cases s with
  | array | reference | pointer | optional =>
    cases hw
    refine ⟨?_, fun p hp => ?_, ?_⟩
    · rintro k ⟨⟩
    · rw [List.mem_singleton.1 hp]
      exact helem
    · rintro slot ⟨⟩
  | plain | int | uint | float | named | fn | var => cases hw

theorem WellFormed.view_of_fn (wf : t.WellFormed) {slot : Nat}
    (h : t.lookup? i = some ⟨.fn slot, m⟩) : ∃ ps r, t.view i = .fn ps r := by
  obtain ⟨s, hs, -⟩ := wf.exists_signature h
  refine ⟨s.params, s.result, ?_⟩
  unfold view
  rw [h, hs]

theorem view_of_isUntyped (h : t.lookup? i = some ty) (hk : ty.kind.isUntyped = true) :
    t.view i = .atom (.plain ty.kind) := by
  obtain ⟨s, m⟩ := ty
  cases s with
  | plain k => exact view_of_atom h rfl
  | int | uint | float | array | reference | pointer | optional | named | fn | var => cases hk

theorem view_of_isError (h : t.lookup? i = some ty) (hk : ty.kind = .error) :
    t.view i = .atom (.plain .error) := by
  obtain ⟨s, m⟩ := ty
  cases s with
  | plain k =>
    cases hk
    exact view_of_atom h rfl
  | int | uint | float | array | reference | pointer | optional | named | fn | var => cases hk

theorem view_of_isNumeric (h : t.lookup? i = some ty) (hk : ty.kind.isNumeric = true) :
    ∃ a, t.view i = .atom a ∧ a.kind = ty.kind := by
  obtain ⟨s, m⟩ := ty
  cases s with
  | plain | int | uint | float => exact ⟨_, view_of_atom h rfl, rfl⟩
  | array | reference | pointer | optional | named | fn | var => cases hk

theorem WellFormed.view_builtin (wf : t.WellFormed) {k : Nat}
    (h : builtinShapes[k]? = some s) (ha : s.atom? = some a) : t.view ⟨k + 1⟩ = .atom a :=
  view_of_atom (wf.lookup?_builtin h) ha

theorem WellFormed.view_error (wf : t.WellFormed) : t.view Builtin.error = .atom (.plain .error) :=
  wf.view_builtin rfl rfl

theorem WellFormed.view_wrap_lt (wf : t.WellFormed) {elem : TypeId}
    (h : t.view i = .wrap w elem) : elem.index < i.index := by
  unfold view at h
  split at h
  · cases h
  next ty hlook =>
    have hparts := (wf.admits hlook).parts elem
    split at h <;> first | cases h | (split at h <;> cases h)
    all_goals
      next hs =>
        rw [hs] at hparts
        exact hparts (List.mem_singleton.2 rfl)

theorem signature?_of_view (h : t.view i = .fn ps r) : t.signature? i = some ⟨ps, r⟩ := by
  unfold view at h
  split at h
  · cases h
  next ty hlook =>
    split at h <;> first | cases h | skip
    split at h
    next s hs =>
      cases h
      exact hs
    next => cases h

theorem WellFormed.view_fn_lt (wf : t.WellFormed)
    (h : t.view i = .fn ps r) : ∀ p ∈ r :: ps, p.index < i.index := by
  unfold view at h
  split at h
  · cases h
  next ty hlook =>
    obtain ⟨s, m⟩ := ty
    dsimp only at h
    split at h <;> first | cases h | skip
    next slot =>
      obtain ⟨sig, hsig, hparts⟩ := wf.exists_signature hlook
      rw [hsig] at h
      cases h
      exact hparts

/-- A type that differs only in its part differs only in its part when looked at. -/
theorem view_withElem {k elem : TypeId}
    (hi : t.lookup? i = some ty) (hview : t.view i = .wrap w elem)
    (hk : t'.lookup? k = some ⟨ty.shape.withElem elem', ty.modifier⟩) :
    t'.view k = .wrap w elem' := by
  obtain ⟨s, m⟩ := ty
  unfold view at hview ⊢
  rw [hi] at hview
  rw [hk]
  cases s with
  | array | reference | pointer | optional =>
    cases hview
    rfl
  | fn slot =>
    dsimp only at hview
    split at hview <;> cases hview
  | plain | int | uint | float | named | var => cases hview

theorem admits_withElem {elem : TypeId}
    (hi : t.lookup? i = some ty) (hview : t.view i = .wrap w elem) (helem : elem'.index < n) :
    t.Admits n (ty.shape.withElem elem') := by
  obtain ⟨s, m⟩ := ty
  unfold view at hview
  rw [hi] at hview
  cases s with
  | array | reference | pointer | optional =>
    refine ⟨fun k hk => (nomatch hk), fun p hp => ?_, fun slot hs => (nomatch hs)⟩
    rwa [List.mem_singleton.1 hp]
  | fn slot =>
    dsimp only at hview
    split at hview <;> cases hview
  | plain | int | uint | float | named | var => cases hview

/-! ## Types over handed-out variables -/

/-- The type is in the table, or there is none, and its variables are among the first `n`. -/
inductive Over (t : TypeTable) (n : Nat) : TypeId → Prop
  | none : Over t n 0
  | atom {i : TypeId} {a : Atom} : t.view i = .atom a → Over t n i
  | wrap {i elem : TypeId} {w : Wrapper} : t.view i = .wrap w elem → Over t n elem → Over t n i
  | fn {i r : TypeId} {ps : List TypeId} :
      t.view i = .fn ps r → (∀ p ∈ ps, Over t n p) → Over t n r → Over t n i
  | var {i : TypeId} {v : VarId} : t.view i = .var v → v.isValid → v.index ≤ n → Over t n i

namespace Over

variable {n n' : Nat}

theorem eq_zero_or_lookup? (h : t.Over n i) : i = 0 ∨ ∃ ty, t.lookup? i = some ty := by
  have hsome (hv : t.view i ≠ .missing) : ∃ ty, t.lookup? i = some ty :=
    Option.ne_none_iff_exists'.1 fun hnone => hv (view_eq_missing_iff.2 hnone)
  cases h with
  | none => exact .inl rfl
  | atom h | wrap h | fn h | var h => exact .inr (hsome (by simp [h]))

theorem view_ne_missing (h : t.Over n i) (h0 : i ≠ 0) : t.view i ≠ .missing := by
  obtain rfl | ⟨ty, hty⟩ := h.eq_zero_or_lookup?
  · exact absurd rfl h0
  · rw [Ne, view_eq_missing_iff, hty]
    exact nofun

theorem lt_size (wf : t.WellFormed) (h : t.Over n i) : i.index < t.size := by
  obtain rfl | ⟨ty, hty⟩ := h.eq_zero_or_lookup?
  · exact wf.size_pos
  · exact lt_size_of_lookup? hty

theorem view_eq (h : t.Over n i) (wf : t.WellFormed) (ht : t.Extends t') :
    t'.view i = t.view i := by
  obtain rfl | ⟨ty, hty⟩ := h.eq_zero_or_lookup?
  · rfl
  · exact ht.view_eq wf hty

theorem elem {elem : TypeId} (h : t.Over n i) (hv : t.view i = .wrap w elem) : t.Over n elem := by
  cases h with
  | none => cases hv
  | atom h | fn h | var h => cases h.symm.trans hv
  | wrap h helem =>
    cases h.symm.trans hv
    exact helem

theorem signature (h : t.Over n i) (hv : t.view i = .fn ps r) :
    (∀ p ∈ ps, t.Over n p) ∧ t.Over n r := by
  cases h with
  | none => cases hv
  | atom h | wrap h | var h => cases h.symm.trans hv
  | fn h hps hr =>
    cases h.symm.trans hv
    exact ⟨hps, hr⟩

theorem var_bound (h : t.Over n i) (hv : t.view i = .var v) : v.isValid ∧ v.index ≤ n := by
  cases h with
  | none => cases hv
  | atom h | wrap h | fn h => cases h.symm.trans hv
  | var h hvalid hle =>
    cases h.symm.trans hv
    exact ⟨hvalid, hle⟩

/-- A type stays over the variables handed out when table and variables grow. -/
theorem mono (h : t.Over n i) (wf : t.WellFormed) (ht : t.Extends t') (hn : n ≤ n') :
    t'.Over n' i := by
  have same {i : TypeId} (hi : t.Over n i) : t'.view i = t.view i := hi.view_eq wf ht
  induction h with
  | none => exact .none
  | atom h => exact .atom ((same (.atom h)).trans h)
  | wrap h helem ih => exact .wrap ((same (.wrap h helem)).trans h) ih
  | fn h hps hr ihps ihr => exact .fn ((same (.fn h hps hr)).trans h) ihps ihr
  | var h hvalid hle => exact .var ((same (.var h hvalid hle)).trans h) hvalid (Nat.le_trans hle hn)

theorem of_view_eq (h : t.Over n i) (hv : t.view j = t.view i) (hj : j = 0 ∨ i ≠ 0) :
    t.Over n j := by
  cases h with
  | none =>
    obtain rfl | hne := hj
    · exact .none
    · exact absurd rfl hne
  | atom h => exact .atom (hv.trans h)
  | wrap h helem => exact .wrap (hv.trans h) helem
  | fn h hps hr => exact .fn (hv.trans h) hps hr
  | var h hvalid hle => exact .var (hv.trans h) hvalid hle

end Over

end TypeTable

/-! ## Denotation -/

/-- Identifier `i` denotes the term `u`, with variables replaced by what `σ` binds them to. -/
inductive Denotes (t : TypeTable) (σ : VarId → Option TypeId) : TypeId → TypeTerm → Prop
  | missing : Denotes t σ 0 .missing
  | atom {i : TypeId} {a : Atom} : t.view i = .atom a → Denotes t σ i (.atom a)
  | wrap {i elem : TypeId} {w : Wrapper} {u : TypeTerm} :
      t.view i = .wrap w elem → Denotes t σ elem u → Denotes t σ i (.wrap w u)
  | fn {i r : TypeId} {ps : List TypeId} {us : List TypeTerm} {u : TypeTerm} :
      t.view i = .fn ps r → ps.length = us.length →
      (∀ (k : Nat) (p : TypeId) (q : TypeTerm), ps[k]? = some p → us[k]? = some q →
        Denotes t σ p q) →
      Denotes t σ r u → Denotes t σ i (.fn us u)
  | free {i : TypeId} {v : VarId} : t.view i = .var v → σ v = none → Denotes t σ i (.var v)
  | bound {i j : TypeId} {v : VarId} {u : TypeTerm} :
      t.view i = .var v → σ v = some j → Denotes t σ j u → Denotes t σ i u

namespace Denotes

variable {t t' : TypeTable} {σ : VarId → Option TypeId} {i j : TypeId} {u u' : TypeTerm}
  {ps : List TypeId} {w : Wrapper} {r : TypeId}

section

variable (h : Denotes t σ i u)
include h

theorem view_ne_missing : i = 0 ∨ t.view i ≠ .missing := by
  cases h with
  | missing => exact .inl rfl
  | atom h | wrap h | fn h | free h | bound h => exact .inr (by simp [h])

theorem eq_zero_or_lookup? : i = 0 ∨ ∃ ty, t.lookup? i = some ty := by
  refine h.view_ne_missing.imp_right fun hv => Option.ne_none_iff_exists'.1 fun hnone => ?_
  exact hv (TypeTable.view_eq_missing_iff.2 hnone)

theorem functional (h' : Denotes t σ i u') : u = u' := by
  induction h generalizing u' with
  | missing =>
    cases h' with
    | missing => rfl
    | atom h | wrap h | fn h | free h | bound h => cases h
  | atom hv =>
    cases h' with
    | missing => cases hv
    | atom h => cases hv.symm.trans h; rfl
    | wrap h | fn h | free h | bound h => cases hv.symm.trans h
  | wrap hv _ ih =>
    cases h' with
    | missing => cases hv
    | wrap h helem =>
      cases hv.symm.trans h
      rw [ih helem]
    | atom h | fn h | free h | bound h => cases hv.symm.trans h
  | @fn i r ps us u hv hlen _ _ ihps ihr =>
    cases h' with
    | missing => cases hv
    | @fn _ _ _ us' _ h hlen' hps' hr' =>
      cases hv.symm.trans h
      have hus : us = us' := by
        refine List.ext_getElem? fun k => ?_
        by_cases hk : k < ps.length
        · have hq : us[k]? = some us[k] := List.getElem?_eq_getElem (hlen ▸ hk)
          have hq' : us'[k]? = some us'[k] := List.getElem?_eq_getElem (hlen' ▸ hk)
          have hp : ps[k]? = some ps[k] := List.getElem?_eq_getElem hk
          rw [hq, hq', ihps k _ _ hp hq (hps' k _ _ hp hq')]
        · rw [List.getElem?_eq_none (by omega), List.getElem?_eq_none (by omega)]
      rw [hus, ihr hr']
    | atom h | wrap h | free h | bound h => cases hv.symm.trans h
  | free hv hfree =>
    cases h' with
    | missing => cases hv
    | free h => cases hv.symm.trans h; rfl
    | bound h hbound =>
      cases hv.symm.trans h
      cases hfree.symm.trans hbound
    | atom h | wrap h | fn h => cases hv.symm.trans h
  | bound hv hbound _ ih =>
    cases h' with
    | missing => cases hv
    | free h hfree =>
      cases hv.symm.trans h
      cases hfree.symm.trans hbound
    | bound h hbound' hj =>
      cases hv.symm.trans h
      cases hbound.symm.trans hbound'
      exact ih hj
    | atom h | wrap h | fn h => cases hv.symm.trans h

theorem isReference_eq_false (hvar : ∀ v, t.view i ≠ .var v)
    (href : ∀ isMut elem, t.view i ≠ .wrap (.reference isMut) elem) : u.isReference = false := by
  cases h with
  | missing | atom | fn => rfl
  | @wrap _ elem w _ h =>
    cases w with
    | reference isMut => exact absurd h (href isMut elem)
    | stack | heap | slice | pointer | optional => rfl
  | free h | bound h => exact absurd h (hvar _)

theorem of_view_eq (hv : t.view j = t.view i) (hi : i ≠ 0) : Denotes t σ j u := by
  cases h with
  | missing => exact absurd rfl hi
  | atom h => exact .atom (hv.trans h)
  | wrap h helem => exact .wrap (hv.trans h) helem
  | fn h hlen hps hr => exact .fn (hv.trans h) hlen hps hr
  | free h hfree => exact .free (hv.trans h) hfree
  | bound h hbound hj => exact .bound (hv.trans h) hbound hj

theorem mono (wf : t.WellFormed) (ht : t.Extends t') : Denotes t' σ i u := by
  have same {i : TypeId} (hne : t.view i ≠ .missing) : t'.view i = t.view i :=
    ht.view_eq_of_ne wf hne
  induction h with
  | missing => exact .missing
  | atom h => exact .atom ((same (by simp [h])).trans h)
  | wrap h _ ih => exact .wrap ((same (by simp [h])).trans h) ih
  | fn h hlen _ _ ihps ihr => exact .fn ((same (by simp [h])).trans h) hlen ihps ihr
  | free h hfree => exact .free ((same (by simp [h])).trans h) hfree
  | bound h hbound _ ih => exact .bound ((same (by simp [h])).trans h) hbound ih

end

/-- Terms chosen for the types of a list one by one make a list. -/
theorem exists_terms {S : Nat → TypeId → TypeTerm → Prop}
    (h : ∀ (k : Nat) (p : TypeId), ps[k]? = some p → ∃ q, S k p q) :
    ∃ us : List TypeTerm, ps.length = us.length ∧
      ∀ (k : Nat) (p : TypeId) (q : TypeTerm), ps[k]? = some p → us[k]? = some q → S k p q := by
  induction ps generalizing S with
  | nil => exact ⟨[], rfl, by simp⟩
  | cons p ps ih =>
    obtain ⟨u, hu⟩ := h 0 p rfl
    obtain ⟨us, hlen, hus⟩ := ih fun k q hq => h (k + 1) q (by simpa using hq)
    refine ⟨u :: us, by simp [hlen], fun k => ?_⟩
    cases k with
    | zero =>
      rintro p' q ⟨⟩ ⟨⟩
      exact hu
    | succ k => exact fun p' q hp hq => hus k p' q (by simpa using hp) (by simpa using hq)

theorem exists_fn (hv : t.view i = .fn ps r)
    (hps : ∀ p ∈ ps, ∃ u, Denotes t σ p u) (hr : ∃ u, Denotes t σ r u) : ∃ u, Denotes t σ i u := by
  obtain ⟨us, hlen, hus⟩ := exists_terms fun k p hp =>
    hps p (List.mem_of_getElem? hp)
  obtain ⟨u, hu⟩ := hr
  exact ⟨.fn us u, .fn hv hlen hus hu⟩

theorem of_fn (h : Denotes t σ i u) (hv : t.view i = .fn ps r) :
    ∃ us w, u = .fn us w ∧ ps.length = us.length ∧ Denotes t σ r w ∧
      ∀ (k : Nat) (p : TypeId) (q : TypeTerm), ps[k]? = some p → us[k]? = some q →
        Denotes t σ p q := by
  cases h with
  | missing => cases hv
  | fn h hlen hus hr =>
    cases h.symm.trans hv
    exact ⟨_, _, rfl, hlen, hr, hus⟩
  | atom h | wrap h | free h | bound h => cases h.symm.trans hv

theorem of_wrap {elem : TypeId} (h : Denotes t σ i u) (hv : t.view i = .wrap w elem) :
    ∃ v, u = .wrap w v ∧ Denotes t σ elem v := by
  cases h with
  | missing => cases hv
  | wrap h helem =>
    cases h.symm.trans hv
    exact ⟨_, rfl, helem⟩
  | atom h | fn h | free h | bound h => cases h.symm.trans hv

end Denotes

/-! ## Terms without bindings -/

namespace TypeTable

abbrev Reads (t : TypeTable) : TypeId → TypeTerm → Prop := Denotes t fun _ => none

/-- The term of a type, looking `n` levels deep; variables stay. -/
def termAt (t : TypeTable) : Nat → TypeId → TypeTerm
  | 0, _ => .missing
  | n + 1, i =>
    match t.view i with
    | .missing => .missing
    | .atom a => .atom a
    | .wrap w elem => .wrap w (termAt t n elem)
    | .fn ps r => .fn (ps.map (termAt t n)) (termAt t n r)
    | .var v => .var v

/-- The term of a type; variables stay. The parts of a type come before it, so its position bounds
the depth. -/
def termOf (t : TypeTable) (i : TypeId) : TypeTerm := t.termAt (i.index + 1) i

variable {t : TypeTable} {i : TypeId}

theorem WellFormed.reads_termAt (wf : t.WellFormed) {n : Nat} (hn : i.index < n)
    (hi : i.index < t.size) : t.Reads i (t.termAt n i) := by
  induction n generalizing i with
  | zero => omega
  | succ n ih =>
    unfold termAt
    cases hv : t.view i with
    | missing =>
      have h0 : i.index = 0 := by
        by_contra hne
        obtain ⟨ty, hty⟩ := exists_lookup? hne hi
        rw [view_eq_missing_iff.1 hv] at hty
        cases hty
      obtain ⟨k⟩ := i
      subst h0
      exact .missing
    | atom a => exact .atom hv
    | wrap w elem =>
      have hlt := wf.view_wrap_lt hv
      exact .wrap hv (ih (by omega) (by omega))
    | fn ps r =>
      have hlt := wf.view_fn_lt hv
      refine .fn hv (by simp) (fun k p q hp hq => ?_) ?_
      · rw [List.getElem?_map, hp] at hq
        cases hq
        have := hlt p (List.mem_cons_of_mem r (List.mem_of_getElem? hp))
        exact ih (by omega) (by omega)
      · have := hlt r List.mem_cons_self
        exact ih (by omega) (by omega)
    | var v => exact .free hv rfl

theorem WellFormed.reads_iff_termOf (wf : t.WellFormed) (hi : i.index < t.size) {u : TypeTerm} :
    t.Reads i u ↔ t.termOf i = u := by
  have hterm := wf.reads_termAt (Nat.lt_succ_self i.index) hi
  exact ⟨hterm.functional, fun h => h ▸ hterm⟩

end TypeTable

end UnitCheck
