import UnitCheck.Proofs.Scope.Table
import UnitCheck.Proofs.Typing.Regular

/-!
# The walk of inference

Inference walks over the values of a module and notes a type for each. What a part of the walk does
is said once for all parts (`Visits`): it takes no note back, it notes solid types, and the values
that it notes are those that are met in walking over some values of the module. So parts are put
together as the module is (`Visits.trans`, `Visits.note`), and a walk over all of a regular module
is known to come by every value.

A type that was made to fit has to fit in the end, when other types have been made to fit and
variables have been bound. So a fit is noted in a form that later states keep (`FitsLine`,
`FitsValue`). -/

namespace UnitCheck.Typing

open Code List
open Run (Gives)

variable {clean : Prop} {m : Module} {R : TypeId → Prop} {s s' s'' : State} {t : TypeId}
  {v w : ValueId} {vs ws ks ks' : List ValueId}

/-! ## What fits -/

/-- A state that knows at least as much. -/
structure State.Later (s s' : State) : Prop where
  env : s.env.Extends s'.env
  values : s.valueTypes ⊆ s'.valueTypes
  locals : ∀ {l : LocalId} {t : TypeId}, s.localTypes.lookup l = some t →
    s'.localTypes.lookup l = some t

/-- The type that is noted for a value agrees with another one. -/
def State.Agrees (s : State) (expect : TypeId) (v : ValueId) : Prop :=
  ∃ t, (v, t) ∈ s.valueTypes ∧ s.env.Agree expect t

/-- A type is one of functions that take arguments of the given types. -/
def Env.Applies (e : Env) (t : TypeId) (ts : List TypeId) : Prop :=
  ∀ ⦃f : Env⦄, f.Good → e.Extends f → ∀ ⦃u : TypeTerm⦄, f.Denotes t u → u.isAbsorbing ∨
    ∃ us w, u = .fn us w ∧ us.length = ts.length ∧
      ∀ (k : Nat) (a : TypeId) (q b : TypeTerm), us[k]? = some q → ts[k]? = some a → f.Denotes a b →
        Compatible TypeTerm.isAbsorbing q b

/-- What a line binds, assigns to a slot or returns fits. -/
def FitsLine (s : State) (result : TypeId) : Line → Prop
  | .bind l v | .assign (.slot l) v =>
    v.isValid = true → ∃ t, s.localTypes.lookup l = some t ∧ s.Agrees t v
  | .return_ v => result.isValid = true → v.isValid = true → s.Agrees result v
  | _ => True

def FitsLines (m : Module) (s : State) (result : TypeId) (L : List LineId) : Prop :=
  ∀ i ∈ L, ∀ x, m.line? i = some x → FitsLine s result x

/-- Arguments fit their function, and conditions are conditions. -/
def FitsForm (s : State) : Value → Prop
  | .call callee args _ => ∃ t ts, (callee, t) ∈ s.valueTypes ∧
      List.Forall₂ (fun v t => (v, t) ∈ s.valueTypes) args ts ∧ s.env.Applies t ts
  | .ifElse chain => ∀ x ∈ chain.elim [] Chain.branches, x.1.isValid = true →
      s.Agrees Builtin.bool x.1
  | .whileLoop cond _ => cond.isValid = true → s.Agrees Builtin.bool cond
  | _ => True

/-- What stands in a value fits. -/
structure FitsValue (m : Module) (s : State) (result : TypeId) (x : Value) : Prop where
  form : FitsForm s x
  lines : ∀ b ∈ x.blocks, FitsLines m s result (m.linesOf b)

theorem Env.Applies.mono {e e' : Env} {ts : List TypeId} (h : e.Applies t ts)
    (hext : e.Extends e') : e'.Applies t ts :=
  fun _ good hf _ hu => h good (hext.trans hf) hu

namespace State.Later

theorem agrees {expect : TypeId} (h : s.Later s') (ha : s.Agrees expect v) :
    s'.Agrees expect v := by
  obtain ⟨t, ht, hagree⟩ := ha
  exact ⟨t, h.values ht, fun _ hf => hagree (h.env.trans hf)⟩

variable {r : TypeId} {x : Value}

theorem fitsLine (h : s.Later s') {x : Line} (hx : FitsLine s r x) : FitsLine s' r x := by
  unfold FitsLine at hx ⊢
  split at hx
  · intro hv
    obtain ⟨t, ht, ha⟩ := hx hv
    exact ⟨t, h.locals ht, h.agrees ha⟩
  · intro hv
    obtain ⟨t, ht, ha⟩ := hx hv
    exact ⟨t, h.locals ht, h.agrees ha⟩
  · exact fun hr hv => h.agrees (hx hr hv)
  · exact trivial

theorem fitsLines (h : s.Later s') {L : List LineId} (hL : FitsLines m s r L) :
    FitsLines m s' r L :=
  fun i hi x hx => h.fitsLine (hL i hi x hx)

theorem fitsForm (h : s.Later s') (hx : FitsForm s x) : FitsForm s' x := by
  cases x with
  | call callee args candidates =>
    obtain ⟨t, ts, ht, hts, happlies⟩ := hx
    exact ⟨t, ts, h.values ht, hts.imp fun _ _ hnote => h.values hnote, happlies.mono h.env⟩
  | ifElse chain => exact fun x hmem hvalid => h.agrees (hx x hmem hvalid)
  | whileLoop cond b => exact fun hvalid => h.agrees (hx hvalid)
  | _ => exact trivial

theorem fitsValue (h : s.Later s') (hx : FitsValue m s r x) : FitsValue m s' r x :=
  ⟨h.fitsForm hx.form, fun b hb => h.fitsLines (hx.lines b hb)⟩

end State.Later

/-! ## Parts of the walk -/

/-- A state in which values of a module can be typed, in functions whose results `R` holds of. -/
structure State.Ready (clean : Prop) (m : Module) (R : TypeId → Prop) (s : State) : Prop where
  good : s.env.Good
  types : m.types.Extends s.env.types
  locals : ∀ {l : LocalId} {x : Local}, m.local? l = some x → ∃ t, s.localTypes.lookup l = some t ∧
    s.env.Has clean t ∧ (x.type.isValid = true → t = x.type)
  result : s.result.isValid = true → s.env.Has clean s.result
  allowed : R s.result
  values : ∀ y ∈ s.valueTypes, s.env.Has clean y.2
  decls : ∀ y ∈ s.declTypes, y.2.isValid = true → s.env.Has clean y.2

/-- A part of the walk that notes types for the values `ks`. -/
structure Walks (clean : Prop) (m : Module) (R : TypeId → Prop) (s s' : State) (ks : List ValueId) :
    Prop where
  moves : s.env.Moves clean s'.env
  locals : ∀ {l : LocalId} {t : TypeId}, s.localTypes.lookup l = some t →
    s'.localTypes.lookup l = some t
  result : s'.result = s.result
  decls : ∀ y ∈ s'.declTypes, y.2.isValid = true → y ∈ s.declTypes ∨ s'.env.Has clean y.2
  defined : ∀ k ∈ ks, (m.value? k).isSome = true
  /-- A value is noted a second time only behind a fault. -/
  notes : ∃ new, s'.valueTypes = new ++ s.valueTypes ∧ (∀ y ∈ new, s'.env.Has clean y.2) ∧
    (∀ k ∈ ks, ∃ t, (k, t) ∈ new) ∧ (s'.env.Calm clean → new.map Prod.fst = ks)
  fits : s'.env.Calm clean → ∀ k ∈ ks, ∀ x, m.value? k = some x → ∃ r, R r ∧ FitsValue m s' r x

/-- A part of the walk that goes over the values `vs` and what they are computed from. -/
def Visits (clean : Prop) (m : Module) (R : TypeId → Prop) (s : State) (vs : List ValueId)
    (s' : State) : Prop :=
  ∃ ks, Walks clean m R s s' ks ∧ m.Meets vs ks

namespace Walks

theorem later (h : Walks clean m R s s' ks) : s.Later s' := by
  obtain ⟨new, hnew, -⟩ := h.notes
  exact ⟨h.moves.ext, hnew ▸ subset_append_right new _, h.locals⟩

theorem trans (h : Walks clean m R s s' ks) (h' : Walks clean m R s' s'' ks') :
    Walks clean m R s s'' (ks' ++ ks) where
  moves := h.moves.trans h'.moves
  locals hl := h'.locals (h.locals hl)
  result := h'.result.trans h.result
  decls y hy hvalid := by
    refine (h'.decls y hy hvalid).elim (fun hy => ?_) .inr
    exact (h.decls y hy hvalid).imp_right fun hhas => hhas.mono h'.moves
  defined k hk := (mem_append.1 hk).elim (h'.defined k) (h.defined k)
  notes := by
    obtain ⟨new, hnew, hhas, hkeys, hcalm⟩ := h.notes
    obtain ⟨new', hnew', hhas', hkeys', hcalm'⟩ := h'.notes
    refine ⟨new' ++ new, by rw [hnew', hnew, append_assoc], fun y hy => ?_, fun k hk => ?_,
      fun hc => ?_⟩
    · exact (mem_append.1 hy).elim (hhas' y) fun hy => (hhas y hy).mono h'.moves
    · refine (mem_append.1 hk).elim (fun hk => ?_) fun hk => ?_
      · exact (hkeys' k hk).imp fun _ => mem_append_left _
      · exact (hkeys k hk).imp fun _ => mem_append_right _
    · rw [map_append, hcalm' hc, hcalm (h'.moves.ext.calm hc)]
  fits hc k hk x hx := by
    refine (mem_append.1 hk).elim (fun hk => h'.fits hc k hk x hx) fun hk => ?_
    obtain ⟨r, hr, hfits⟩ := h.fits (h'.moves.ext.calm hc) k hk x hx
    exact ⟨r, hr, h'.later.fitsValue hfits⟩

theorem of_moves {e : Env} {copies : List ValueId} (h : s.env.Moves clean e) :
    Walks clean m R s { s with env := e, copies := copies } [] where
  moves := h
  locals := id
  result := rfl
  decls _ hy _ := .inl hy
  defined := nofun
  notes := ⟨[], rfl, nofun, nofun, fun _ => rfl⟩
  fits _ := nofun

end Walks

namespace Visits

theorem refl (good : s.env.Good) : Visits clean m R s [] s := ⟨[], .of_moves (.refl good), .nil⟩

theorem of_moves {e : Env} {copies : List ValueId} (h : s.env.Moves clean e) :
    Visits clean m R s [] { s with env := e, copies := copies } :=
  ⟨[], .of_moves h, .nil⟩

theorem trans (h : Visits clean m R s vs s') (h' : Visits clean m R s' ws s'') :
    Visits clean m R s (vs ++ ws) s'' := by
  obtain ⟨ks, hwalk, hmeets⟩ := h
  obtain ⟨ks', hwalk', hmeets'⟩ := h'
  exact ⟨ks' ++ ks, hwalk.trans hwalk', hmeets.append hmeets'⟩

theorem step (h : Visits clean m R s vs s') (h' : Visits clean m R s' [] s'') :
    Visits clean m R s vs s'' :=
  append_nil vs ▸ h.trans h'

theorem of_absent (good : s.env.Good) (h : ¬ v.isValid = true) : Visits clean m R s [v] s :=
  ⟨[], .of_moves (.refl good), .of_absent (Bool.eq_false_iff.2 h)⟩

section

variable (h : Visits clean m R s vs s')
include h

theorem moves : s.env.Moves clean s'.env :=
  let ⟨_, hwalk, _⟩ := h
  hwalk.moves

theorem later : s.Later s' :=
  let ⟨_, hwalk, _⟩ := h
  hwalk.later

theorem result : s'.result = s.result :=
  let ⟨_, hwalk, _⟩ := h
  hwalk.result

theorem has (ht : s.env.Has clean t) : s'.env.Has clean t := ht.mono h.moves

theorem calm (hc : s'.env.Calm clean) : s.env.Calm clean :=
  h.moves.ext.calm hc

theorem mono {R' : TypeId → Prop} (hR : ∀ r, R r → R' r) : Visits clean m R' s vs s' := by
  obtain ⟨ks, hwalk, hmeets⟩ := h
  refine ⟨ks, { hwalk with fits := fun hc k hk x hx => ?_ }, hmeets⟩
  obtain ⟨r, hr, hfits⟩ := hwalk.fits hc k hk x hx
  exact ⟨r, hR r hr, hfits⟩

theorem ready (hs : s.Ready clean m R) : s'.Ready clean m R := by
  obtain ⟨ks, hwalk, -⟩ := h
  obtain ⟨new, hnew, hhas, -⟩ := hwalk.notes
  refine ⟨hwalk.moves.good, hs.types.trans hwalk.moves.ext.types, fun hx => ?_, fun hr => ?_,
    hwalk.result ▸ hs.allowed, fun y hy => ?_, fun y hy hvalid => ?_⟩
  · obtain ⟨t, ht, hhas, htype⟩ := hs.locals hx
    exact ⟨t, hwalk.locals ht, hhas.mono hwalk.moves, htype⟩
  · rw [hwalk.result] at hr ⊢
    exact (hs.result hr).mono hwalk.moves
  · rw [hnew] at hy
    exact (mem_append.1 hy).elim (hhas y) fun hy => (hs.values y hy).mono hwalk.moves
  · exact (hwalk.decls y hy hvalid).elim (fun hy => (hs.decls y hy hvalid).mono hwalk.moves) id

theorem noted (hv : v ∈ vs) (hvalid : v.isValid = true) : ∃ t, (v, t) ∈ s'.valueTypes := by
  obtain ⟨ks, hwalk, hmeets⟩ := h
  obtain ⟨new, hnew, -, hkeys, -⟩ := hwalk.notes
  rw [hnew]
  exact (hkeys v (hmeets.mem hv hvalid)).imp fun _ => mem_append_left _

end

variable {x : Value}

theorem note {r : TypeId} (h : Visits clean m R s (m.operands v) s')
    (hx : m.value? v = some x) (ht : s'.env.Has clean t) (hr : R r)
    (hfits : s'.env.Calm clean → FitsValue m s' r x) :
    Visits clean m R s [v] { s' with valueTypes := (v, t) :: s'.valueTypes } := by
  obtain ⟨ks, hwalk, hmeets⟩ := h
  refine ⟨[v] ++ ks, hwalk.trans ⟨.refl hwalk.moves.good, id, rfl,
    fun _ hy _ => .inl hy, ?_, ?_, ?_⟩, hmeets.cons⟩
  · simp [hx]
  · refine ⟨[(v, t)], rfl, ?_, ?_, fun _ => rfl⟩
    · simpa using ht
    · simp
  · intro hc k hk y hy
    obtain rfl := mem_singleton.1 hk
    obtain rfl := Option.some_inj.1 (hx.symm.trans hy)
    have hlater : s'.Later { s' with valueTypes := (k, t) :: s'.valueTypes } :=
      ⟨.refl _, subset_cons_self _ _, id⟩
    exact ⟨r, hr, hlater.fitsValue (hfits hc)⟩

theorem renote (good : s.env.Good) (ht : s.env.Has clean t) (h : ¬ s.env.Calm clean) :
    Visits clean m R s [] { s with valueTypes := (v, t) :: s.valueTypes } := by
  refine ⟨[], ⟨.refl good, id, rfl, fun _ hy _ => .inl hy, nofun, ?_, fun _ => nofun⟩, .nil⟩
  refine ⟨[(v, t)], rfl, ?_, nofun, fun hc => absurd hc h⟩
  simpa using ht

theorem fits_of_reaches (h : Visits clean m R s vs s') (hc : s'.env.Calm clean) (hv : v ∈ vs)
    (hreach : m.Reaches v w) (hx : m.value? w = some x) : ∃ r, R r ∧ FitsValue m s' r x := by
  obtain ⟨ks, hwalk, hmeets⟩ := h
  have hvalid : w.isValid = true := by
    unfold Module.value? at hx
    split at hx
    next hvalid => exact hvalid
    next => cases hx
  exact hwalk.fits hc w (hmeets.mem_of_reaches hv hreach hvalid) x hx

end Visits

end UnitCheck.Typing
