import UnitCheck.Check.Session
import Mathlib.Tactic.Common

/-!
# Observing changes no verdict

A check notes, times and traces what it does, and none of that reaches its result. `Yields K x R`
says so of a step: whatever the session has seen so far, the result satisfies `R`, and the host
changes by `K` at most, which is what taking the time does to it. Steps follow each other by
`Yields.bind`.

The passes of a session give what the passes alone give (`yields_runPasses`), so without a cache a
check gives the verdict of the passes, of which only the timings belong to the session
(`checkUnit_isVerdict`).
-/

namespace UnitCheck.Check

namespace Checking

variable {σ α β : Type} {K : σ → σ → Prop} {x : Checking (StateM σ) α}
    {f : α → Checking (StateM σ) β}
  {R : Except Failure α → Prop} {Q : Except Failure β → Prop}

/-- The result of a step in a session, the session and the state of the host behind it. -/
def outcome (x : Checking (StateM σ) α) (s : Session) (w : σ) : Except Failure α × Session × σ :=
  let ((r, s'), w') := (x.run.run s).run w
  (r, s', w')

theorem outcome_bind (x : Checking (StateM σ) α) (f : α → Checking (StateM σ) β) (s : Session)
    (w : σ) : (x >>= f).outcome s w = match x.outcome s w with
      | (.ok a, s', w') => (f a).outcome s' w'
      | (.error e, s', w') => (.error e, s', w') := by
  rcases hx : (x.run.run s).run w with ⟨⟨r, s'⟩, w'⟩
  cases r <;> simp only [outcome, ExceptT.run_bind, StateT.run_bind, hx] <;> rfl

variable {s s' : Session} {w w' : σ}

theorem outcome_bind_ok {a : α} (hx : x.outcome s w = (.ok a, s', w')) :
    (x >>= f).outcome s w = (f a).outcome s' w' := by
  rw [outcome_bind, hx]

theorem outcome_bind_error {e : Failure}
    (hx : x.outcome s w = (.error e, s', w')) : (x >>= f).outcome s w = (.error e, s', w') := by
  rw [outcome_bind, hx]

/-- The result satisfies `R`, and the host changes by `K` at most. -/
structure Yields (K : σ → σ → Prop) (x : Checking (StateM σ) α) (R : Except Failure α → Prop) :
    Prop where
  result : ∀ s w, R (x.outcome s w).1
  host : ∀ s w, K w (x.outcome s w).2.2

/-- What taking the time does to the host. -/
structure Clock (h : Host (StateM σ)) (K : σ → σ → Prop) : Prop where
  refl : ∀ w, K w w
  trans : ∀ {w w' w''}, K w w' → K w' w'' → K w w''
  now : ∀ w, K w (h.now.run w).2

variable {h : Host (StateM σ)}

namespace Yields

theorem pure (hK : Clock h K) {a : α} (ha : R (.ok a)) : Yields K (Pure.pure a) R :=
  ⟨fun _ _ => ha, fun _ => hK.refl⟩

theorem bind (hK : Clock h K) (hx : Yields K x R) (hf : ∀ a, R (.ok a) → Yields K (f a) Q)
    (he : ∀ e, R (.error e) → Q (.error e)) : Yields K (x >>= f) Q := by
  have hboth (s : Session) (w : σ) : Q ((x >>= f).outcome s w).1 ∧
    K w ((x >>= f).outcome s w).2.2 := by
    have hR := hx.result s w
    have hle := hx.host s w
    rw [outcome_bind]
    rcases hrun : x.outcome s w with ⟨r, s', w'⟩
    rw [hrun] at hR hle
    cases r with
    | error e => exact ⟨he e hR, hle⟩
    | ok a => exact ⟨(hf a hR).result s' w', hK.trans hle ((hf a hR).host s' w')⟩
  exact ⟨fun s w => (hboth s w).1, fun s w => (hboth s w).2⟩

end Yields

/-- A step that never fails and whose result does not matter. -/
abbrev Quiet (K : σ → σ → Prop) (x : Checking (StateM σ) α) : Prop :=
  Yields K x fun r => ∃ a, r = .ok a

section

variable (hK : Clock h K)
include hK

theorem Quiet.bind (hx : Quiet K x) (hf : ∀ a, Yields K (f a) Q) : Yields K (x >>= f) Q :=
  .bind hK hx (fun a _ => hf a) fun _ he => nomatch he

/-! ## Observing -/

theorem quiet_modifyGet (g : Session → α × Session) :
    Quiet K (modifyGet g : Checking (StateM σ) α) :=
  ⟨fun s _ => ⟨(g s).1, rfl⟩, fun _ => hK.refl⟩

theorem quiet_now : Quiet K (now h) := ⟨fun _ _ => ⟨_, rfl⟩, fun _ => hK.now⟩

theorem quiet_startSpan (c : Trace.Context) (scope : Trace.Scope) (name : Text) :
    Quiet K (startSpan h c scope name) :=
  (quiet_now hK).bind hK fun _ => quiet_modifyGet hK _

theorem quiet_endSpan (s : Option Trace.OpenSpan) (facts : List (Text × Text)) :
    Quiet K (endSpan h s facts) :=
  (quiet_now hK).bind hK fun _ => quiet_modifyGet hK _

theorem quiet_points (s : Option Trace.OpenSpan) (name : Text) (details : List Text) :
    Quiet K (points h s name details) :=
  (quiet_now hK).bind hK fun _ => quiet_modifyGet hK _

end

theorem Yields.phase (hK : Clock h K) (hx : Yields K x R) (path unit name : Text)
    (remark : α → Text) : Yields K (phase h path unit name x remark) R := by
  refine (quiet_modifyGet hK _).bind hK fun _ => (quiet_now hK).bind hK fun _ => ?_
  refine (quiet_modifyGet hK _).bind hK fun i => ?_
  refine .bind hK hx (fun a ha => ?_) fun _ => id
  refine (quiet_now hK).bind hK fun _ => ?_
  cases i with
  | none => exact (quiet_modifyGet hK _).bind hK fun _ => .pure hK ha
  | some i =>
    refine (quiet_modifyGet hK _).bind hK fun _ => ?_
    exact (quiet_modifyGet hK _).bind hK fun _ => .pure hK ha

/-! ## The passes -/

def failing : Except Abort α → Except Failure α
  | .ok a => .ok a
  | .error a => .error (.abort a)

section

variable (hK : Clock h K)
include hK

theorem yields_pass (r : Except Abort α) :
    Yields K (pass r : Checking (StateM σ) α) (· = failing r) := by
  cases r with
  | ok a => exact .pure hK rfl
  | error e => exact ⟨fun _ _ => rfl, fun _ => hK.refl⟩

theorem yields_resolve (c : Trace.Context) (tree : Syntax.Tree) :
    Yields K (resolve h c tree) (· = failing (Resolution.resolve tree)) := by
  refine (quiet_startSpan hK ..).bind hK fun x => (quiet_startSpan hK ..).bind hK fun y => ?_
  refine .bind hK (yields_pass hK _) (fun r hr => ?_) fun _ => id
  refine (quiet_points hK ..).bind hK fun _ => (quiet_endSpan hK ..).bind hK fun _ => ?_
  refine (quiet_startSpan hK ..).bind hK fun _ => (quiet_endSpan hK ..).bind hK fun _ => ?_
  exact (quiet_endSpan hK ..).bind hK fun _ => .pure hK hr

theorem yields_lower (c : Trace.Context) (r : Resolution.Resolved) :
    Yields K (lower h c r) (· = failing (Lowering.lower r.tree r.table.decls)) := by
  refine (quiet_startSpan hK ..).bind hK fun x => ?_
  refine .bind hK (yields_pass hK _) (fun l hl => ?_) fun _ => id
  exact (quiet_points hK ..).bind hK fun _ => (quiet_endSpan hK ..).bind hK fun _ => .pure hK hl

theorem yields_infer (c : Trace.Context) (l : Lowering.Lowered) :
    Yields K (infer h c l) (· = failing (Typing.infer l.module)) := by
  refine (quiet_startSpan hK ..).bind hK fun x => ?_
  refine .bind hK (yields_pass hK _) (fun t ht => ?_) fun _ => id
  exact (quiet_endSpan hK ..).bind hK fun _ => .pure hK ht

theorem Yields.bind_failing {r : Except Abort α} {g : α → Except Abort β}
    (hx : Yields K x (· = failing r)) (hf : ∀ a, Yields K (f a) (· = failing (g a))) :
    Yields K (x >>= f) (· = failing (r >>= g)) := by
  cases r with
  | ok a =>
    refine .bind hK hx (fun a' ha => ?_) fun e he => nomatch he
    cases ha
    exact hf a
  | error e =>
    exact .bind hK hx (fun a' ha => nomatch ha) fun _ he => congrArg _ (Except.error.inj he)

theorem yields_runPasses (c : Trace.Context) (path : Text) (u : SourceUnit) :
    Yields K (runPasses h c path u) (· = failing (passes u.tree)) := by
  refine .bind_failing hK (.phase hK (yields_resolve hK c u.tree) ..) fun r => ?_
  refine .bind_failing hK (.phase hK (yields_lower hK c r) ..) fun l => ?_
  refine .bind_failing hK (.phase hK (yields_infer hK c l) ..) fun t => ?_
  exact .pure hK rfl

end

/-! ## Checking a unit -/

variable {c : Trace.Context} {o : Options} {path : Text} {u : SourceUnit} {digest : Digest}
  {r : Except Failure Verdict}

/-- The result and the host behind a step; what the session saw is left out. -/
def effect (x : Checking (StateM σ) α) (s : Session) (w : σ) : Except Failure α × σ :=
  ((x.outcome s w).1, (x.outcome s w).2.2)

/-- Concluding runs the passes and, if they come to an end, stores their verdict. -/
theorem conclude_cases (hK : Clock h K) (s : Session) (w : σ) :
    let y := (conclude h c o path u digest).effect s w
    (∃ a, passes u.tree = .error a ∧ y.1 = .error (.abort a) ∧ K w y.2) ∨
      ∃ p t s' w', passes u.tree = .ok p ∧ K w w' ∧
        let v := Verdict.ofPasses u digest o.threshold p t
        let z := (store h o u digest v).effect s' w'
        (y.1.map Prod.fst, y.2) = (z.1.map fun _ => shown o v, z.2) := by
  intro y
  have hy : y = (conclude h c o path u digest).effect s w := rfl
  have hpasses := yields_runPasses hK c path u
  have hresult := hpasses.result s w
  have hhost := hpasses.host s w
  rcases hrun : (runPasses h c path u).outcome s w with ⟨r, s', w'⟩
  rw [hrun] at hresult hhost
  cases hp : passes u.tree with
  | error a =>
    rw [hp] at hresult
    obtain rfl : r = .error (.abort a) := hresult
    refine .inl ⟨a, rfl, ?_⟩
    rw [hy, effect, conclude, outcome_bind_error hrun]
    exact ⟨rfl, hhost⟩
  | ok p =>
    rw [hp] at hresult
    obtain rfl : r = .ok p := hresult
    refine .inr ⟨p, s'.timer.unitReport u.name, s', w', rfl, hhost, ?_⟩
    have hget : (get : Checking (StateM σ) Session).outcome s' w' = (.ok s', s', w') := rfl
    simp only [hy, effect]
    rw [conclude, outcome_bind_ok hrun, outcome_bind_ok hget, outcome_bind]
    rcases (store h o u digest _).outcome s' w' with ⟨r, s'', w''⟩
    cases r <;> rfl

theorem outcome_tryCatch (x : Checking (StateM σ) α) (handle : Failure → Checking (StateM σ) α)
    (s : Session) (w : σ) : (tryCatch x handle).outcome s w = match x.outcome s w with
      | (.ok a, s', w') => (.ok a, s', w')
      | (.error e, s', w') => (handle e).outcome s' w' := by
  rcases hx : (x.run.run s).run w with ⟨⟨r, s'⟩, w'⟩
  cases r <;> simp only [outcome, ExceptT.run_tryCatch, StateT.run_bind, hx] <;> rfl

theorem Quiet.exists_outcome (hx : Quiet K x) (s : Session) (w : σ) :
    ∃ a s' w', x.outcome s w = (.ok a, s', w') ∧ K w w' := by
  obtain ⟨a, ha⟩ := hx.result s w
  exact ⟨a, _, _, Prod.ext ha rfl, hx.host s w⟩

theorem within_effect (hK : Clock h K) (span : Option Trace.OpenSpan)
    (x : Checking (StateM σ) (α × List (Text × Text))) (s : Session) (w : σ) :
    ((within h span x).effect s w).1 = (x.effect s w).1.map Prod.fst ∧
      K (x.effect s w).2 ((within h span x).effect s w).2 := by
  simp only [effect, within, outcome_tryCatch]
  rcases hx : x.outcome s w with ⟨r, s', w'⟩
  cases r with
  | error e =>
    obtain ⟨_, s'', w'', hend, hle⟩ := (quiet_endSpan hK span []).exists_outcome s' w'
    rw [outcome_bind_error hx]
    dsimp only
    rw [outcome_bind_ok hend]
    exact ⟨rfl, hle⟩
  | ok a =>
    obtain ⟨_, s'', w'', hend, hle⟩ := (quiet_endSpan hK span a.2).exists_outcome s' w'
    rw [outcome_bind_ok hx, outcome_bind_ok hend]
    exact ⟨rfl, hle⟩

/-- A check that is not cancelled looks its verdict up and, if there is none, concludes it. -/
theorem checkUnit_cases (hK : Clock h K) (ho : o.isCancelled = false) (s : Session) (w : σ) :
    ∃ c' s' w', K w w' ∧
      let x := (decide h c' o path u digest).effect s' w'
      let y := (checkUnit h c o path u digest).effect s w
      y.1 = x.1.map Prod.fst ∧ K x.2 y.2 := by
  obtain ⟨⟨c', span⟩, s', w', hstart, hle⟩ :=
    (quiet_startSpan hK { c with unit := u.name } .unit "check").exists_outcome s w
  refine ⟨c', s', w', hle, ?_⟩
  have hcheck : (checkUnit h c o path u digest).effect s w =
      (within h span (decide h c' o path u digest)).effect s' w' := by
    unfold checkUnit effect
    rw [ho, if_neg Bool.false_ne_true, outcome_bind_ok hstart]
  simp only [hcheck]
  exact within_effect hK span _ s' w'

theorem checkUnit_cancelled (ho : o.isCancelled = true) (s : Session) (w : σ) :
    (checkUnit h c o path u digest).effect s w = (.error .cancelled, w) := by
  unfold checkUnit
  rw [ho]
  rfl

/-! ## Without a cache -/

/-- The result of a check is the one of the passes, whatever time they took. -/
def IsVerdict (o : Options) (u : SourceUnit) (digest : Digest) (r : Except Failure Verdict) :
    Prop :=
  if o.isCancelled then r = .error .cancelled
  else match passes u.tree with
    | .ok p => ∃ t, r = .ok (shown o (.ofPasses u digest o.threshold p t))
    | .error a => r = .error (.abort a)

theorem IsVerdict.of_ok (h : IsVerdict o u digest r) (ho : o.isCancelled = false)
    {p : Passes} (hp : passes u.tree = .ok p) :
    ∃ t, r = .ok (shown o (.ofPasses u digest o.threshold p t)) := by
  unfold IsVerdict at h
  rwa [ho, hp] at h

theorem IsVerdict.of_error (h : IsVerdict o u digest r)
    (ho : o.isCancelled = false) {a : Abort} (hp : passes u.tree = .error a) :
    r = .error (.abort a) := by
  unfold IsVerdict at h
  rwa [ho, hp] at h

theorem IsVerdict.of_cancelled (h : IsVerdict o u digest r)
    (ho : o.isCancelled = true) : r = .error .cancelled := by
  unfold IsVerdict at h
  rwa [if_pos ho] at h

theorem checkUnit_isVerdict (ho : o.cache = none) (s : Session) (w : σ) :
    IsVerdict o u digest ((checkUnit h c o path u digest).effect s w).1 := by
  have hK : Clock h fun _ _ => True := ⟨fun _ => trivial, fun _ _ => trivial, fun _ => trivial⟩
  unfold IsVerdict
  split
  next hcancelled => rw [checkUnit_cancelled hcancelled]
  next hcancelled =>
    obtain ⟨c', s', w', -, hresult, -⟩ := checkUnit_cases hK (Bool.eq_false_iff.2 hcancelled) s w
    rw [hresult]
    have hlookup : (lookup h o u digest).outcome s' w' = (.ok none, s', w') := by
      rw [lookup, ho]
      rfl
    have hdecide : (decide h c' o path u digest).effect s' w' =
        (conclude h c' o path u digest).effect s' w' := by
      rw [effect, decide, outcome_bind_ok hlookup]
      rfl
    rw [hdecide]
    rcases conclude_cases hK s' w' with ⟨a, hp, hr, -⟩ | ⟨p, t, s1, w1, hp, -, hr⟩
    · rw [hp, hr]
      rfl
    · have hstore (v : Verdict) : (store h o u digest v).effect s1 w1 = (.ok (), w1) := by
        rw [store, ho]
        rfl
      rw [hp]
      refine ⟨t, (congrArg Prod.fst hr).trans ?_⟩
      rw [hstore]
      rfl

end Checking

end UnitCheck.Check
