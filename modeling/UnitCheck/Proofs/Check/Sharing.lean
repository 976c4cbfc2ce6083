import UnitCheck.Proofs.Check.Caching
import Mathlib.Logic.Function.Basic

/-!
# Sharing a cache

Many checks can use one cache at a time. Each of them looks its verdict up and, if it finds none,
stores one later; in between, the others do the same (`Step`). What is found depends on who came
first and under which options, but what is shown does not: every check ends like one without a cache
(`shared_cache_is_transparent`).

The invariant behind it is on the entries: each is what some check stored under its own threshold,
with all faults and without limit (`Invariant`). A step keeps it (`Invariant.step`).
-/

namespace UnitCheck.Check

open Checking Function Folder

structure Call where
  options : Options
  path : Text
  unit : SourceUnit
  digest : Digest

inductive Progress
  | waiting
  /-- The cache held no verdict. -/
  | missed
  | done (r : Except Failure Verdict)

namespace Call

def withCache (x : Call) (cache : Option Cache) : Options := { x.options with cache }

def look (x : Call) (cache : Cache) (s : Session) (f : Folder) : Progress × Folder :=
  if x.options.isCancelled then (.done (.error .cancelled), f)
  else match (lookup host (x.withCache cache) x.unit x.digest).outcome s f with
    | (.ok (some v), _, g) => (.done (.ok (served (x.withCache cache) x.unit v).1), g)
    | (.ok none, _, g) => (.missed, g)
    | (.error e, _, g) => (.done (.error e), g)

/-- A call that found nothing runs the passes and stores their verdict. -/
def finish (x : Call) (cache : Cache) (ctx : Trace.Context) (s : Session) (f : Folder) :
    Except Failure Verdict × Folder :=
  let y := (conclude host ctx (x.withCache cache) x.path x.unit x.digest).effect s f
  (y.1.map Prod.fst, y.2)

abbrev Fits (x : Call) : Prop := Storable x.unit x.digest x.options.threshold

end Call

/-- The folder with the cache, and what has become of each call. -/
structure Shared (ι : Type) where
  folder : Folder
  progress : ι → Progress

section

variable {ι : Type} [DecidableEq ι]

/-- Some call takes its next step. -/
inductive Step (cache : Cache) (calls : ι → Call) (st : Shared ι) : Shared ι → Prop
  | look (i : ι) (s : Session) : st.progress i = .waiting →
    Step cache calls st ⟨((calls i).look cache s st.folder).2,
      update st.progress i ((calls i).look cache s st.folder).1⟩
  | finish (i : ι) (ctx : Trace.Context) (s : Session) : st.progress i = .missed →
    Step cache calls st ⟨((calls i).finish cache ctx s st.folder).2,
      update st.progress i (.done ((calls i).finish cache ctx s st.folder).1)⟩

def Run (cache : Cache) (calls : ι → Call) : Shared ι → Shared ι → Prop :=
  Relation.ReflTransGen (Step cache calls)

def Shared.start (f : Folder) : Shared ι := ⟨f, fun _ => .waiting⟩

end

/-- The results are the same: both checks fail alike, or both verdicts name one unit and agree. -/
abbrev SameResult (o : Options) : Except Failure Verdict → Except Failure Verdict → Prop :=
  Alike fun v w => v.unit = w.unit ∧ v.Agrees o w

namespace Call

variable {x : Call} {cache : Cache} {f : Folder}

/-- The result is that of a check without a cache. -/
def Gives (x : Call) (r : Except Failure Verdict) : Prop :=
  ∀ r0, IsVerdict x.options x.unit x.digest r0 → SameResult x.options r r0

theorem gives_abort (hx : x.options.isCancelled = false) {a : Abort}
    (hp : passes x.unit.tree = .error a) : x.Gives (.error (.abort a)) := by
  intro r0 hr0
  rw [hr0.of_error hx hp]
  exact .failed _

theorem gives_shown (hx : x.options.isCancelled = false) {p : Passes}
    (hp : passes x.unit.tree = .ok p) (t : Timings) :
    x.Gives (.ok (shown x.options (.ofPasses x.unit x.digest x.options.threshold p t))) := by
  intro r0 hr0
  obtain ⟨t', rfl⟩ := hr0.of_ok hx hp
  refine .found ⟨?_, shown_agrees _ rfl⟩
  rw [unit_shown _ _ rfl, unit_shown _ _ rfl]
  rfl

theorem gives_served (hx : x.options.isCancelled = false) {p : Passes}
    (hp : passes x.unit.tree = .ok p)
    (threshold : Severity) (t : Timings) : x.Gives (.ok (served x.options x.unit
      (Verdict.ofPasses x.unit x.digest threshold p t).stored).1) := by
  intro r0 hr0
  obtain ⟨t', rfl⟩ := hr0.of_ok hx hp
  refine .found ⟨?_, served_agrees _ rfl⟩
  rw [unit_served, unit_shown _ _ rfl]
  rfl

end Call

/-! ## What every state satisfies -/

section

variable {ι : Type} {cache : Cache} {calls : ι → Call} {f : Folder}

/-- Every entry was stored by one of the calls, whole and under its own threshold. -/
def Entries (cache : Cache) (calls : ι → Call) (f : Folder) : Prop :=
  ∀ d bs, cache.held? f d = some bs → ∃ i p t,
    Cache.key d Cache.version = Cache.key (calls i).digest Cache.version ∧
    passes (calls i).unit.tree = .ok p ∧
    bs = Cache.entryBytes
      (.ofPasses (calls i).unit (calls i).digest (calls i).options.threshold p t)

/-- What holds after every step. -/
structure Invariant (cache : Cache) (calls : ι → Call) (st : Shared ι) : Prop where
  usable : cache.Usable st.folder
  entries : Entries cache calls st.folder
  missed : ∀ i, st.progress i = .missed → (calls i).options.isCancelled = false
  done : ∀ i r, st.progress i = .done r → (calls i).Gives r

/-- Digests that tell units apart, by keys that tell digests apart. -/
structure TellApart (calls : ι → Call) : Prop where
  unit : ∀ i j, (calls i).digest = (calls j).digest → (calls i).unit = (calls j).unit
  key : ∀ i j, Cache.key (calls i).digest Cache.version = Cache.key (calls j).digest Cache.version →
    (calls i).digest = (calls j).digest

/-- What a call finds is what some call stored for the same unit. -/
theorem look_cases (hcalls : TellApart calls) (hfits : ∀ i, (calls i).Fits)
    (husable : cache.Usable f) (hentries : Entries cache calls f) (i : ι) (s : Session) :
    let y := (calls i).look cache s f
    y.2 = f ∧ (y.1 = .missed ∧ (calls i).options.isCancelled = false ∨
      ∃ r, y.1 = .done r ∧ (calls i).Gives r) := by
  intro y
  have hy : y = (calls i).look cache s f := rfl
  cases hcancelled : (calls i).options.isCancelled with
  | true =>
    rw [hy, Call.look, hcancelled]
    refine ⟨rfl, .inr ⟨_, rfl, fun r0 hr0 => ?_⟩⟩
    rw [hr0.of_cancelled hcancelled]
    exact .failed _
  | false =>
    rw [hy, Call.look, hcancelled]
    cases hheld : cache.held? f (calls i).digest with
    | none =>
      rw [lookup_miss rfl husable (.inr hheld)]
      exact ⟨rfl, .inl ⟨rfl, rfl⟩⟩
    | some bs =>
      cases hzero : (calls i).digest.isZero with
      | true =>
        rw [lookup_miss rfl husable (.inl hzero)]
        exact ⟨rfl, .inl ⟨rfl, rfl⟩⟩
      | false =>
        obtain ⟨j, p, t, hkey, hp, rfl⟩ := hentries _ bs hheld
        have hdigest := hcalls.key i j hkey
        have hunit := hcalls.unit i j hdigest
        rw [lookup_hit rfl husable hzero hheld ((hfits j).fits hp t)]
        rw [← hunit] at hp ⊢
        rw [← hdigest]
        exact ⟨rfl, .inr ⟨_, rfl, Call.gives_served hcancelled hp (calls j).options.threshold t⟩⟩

theorem finish_cases (husable : cache.Usable f) (hentries : Entries cache calls f) {i : ι}
    (hi : (calls i).options.isCancelled = false) (ctx : Trace.Context) (s : Session) :
    let y := (calls i).finish cache ctx s f
    (calls i).Gives y.1 ∧ cache.Usable y.2 ∧ Entries cache calls y.2 := by
  intro y
  rcases conclude_effect (o := (calls i).withCache cache) rfl husable ctx (calls i).path
    (calls i).unit
    (calls i).digest s with ⟨a, hp, hresult, hfolder⟩ | ⟨p, t, hp, hresult, hstored⟩
  · have hy : y = (.error (.abort a), f) := by
      simp only [y, Call.finish, hresult, hfolder]
      rfl
    rw [hy]
    exact ⟨Call.gives_abort hi hp, husable, hentries⟩
  · refine ⟨?_, hstored.usable, fun d bs hheld => ?_⟩
    · have hy : y.1 = .ok (shown (calls i).options
          (.ofPasses (calls i).unit (calls i).digest (calls i).options.threshold p t)) := hresult
      rw [hy]
      exact Call.gives_shown hi hp t
    · have hentry := hstored.held d
      split at hentry
      next hnew =>
        cases hheld.symm.trans hentry
        exact ⟨i, p, t, Cache.entryName_injective hnew.2, hp, rfl⟩
      next => exact hentries d bs (hentry ▸ hheld)

theorem Invariant.start (husable : cache.Usable f) (hempty : ∀ d, cache.held? f d = none) :
    Invariant cache calls (.start f) :=
  ⟨husable, fun d _ hheld => (nomatch (hempty d).symm.trans hheld), nofun, nofun⟩

variable [DecidableEq ι] {st st' : Shared ι}

/-- It is enough to look at the call that took a step. -/
theorem Invariant.update (h : Invariant cache calls st) (husable : cache.Usable f)
    (hentries : Entries cache calls f) {i : ι} {q : Progress}
    (hmissed : q = .missed → (calls i).options.isCancelled = false)
    (hdone : ∀ r, q = .done r → (calls i).Gives r) :
    Invariant cache calls ⟨f, update st.progress i q⟩ := by
  refine ⟨husable, hentries, fun j hj => ?_, fun j r hj => ?_⟩ <;> dsimp only at hj
  · by_cases hji : j = i
    · subst hji
      rw [update_self] at hj
      exact hmissed hj
    · rw [update_of_ne hji] at hj
      exact h.missed j hj
  · by_cases hji : j = i
    · subst hji
      rw [update_self] at hj
      exact hdone r hj
    · rw [update_of_ne hji] at hj
      exact h.done j r hj

theorem Invariant.step (hcalls : TellApart calls) (hfits : ∀ i, (calls i).Fits)
    (h : Invariant cache calls st) (hstep : Step cache calls st st') :
    Invariant cache calls st' := by
  cases hstep with
  | look i s hi =>
    obtain ⟨hfolder, hprogress⟩ := look_cases hcalls hfits h.usable h.entries i s
    rw [hfolder]
    rcases hprogress with ⟨hmissed, hcancelled⟩ | ⟨r, hdone, hgives⟩
    · rw [hmissed]
      exact h.update h.usable h.entries (fun _ => hcancelled) nofun
    · rw [hdone]
      exact h.update h.usable h.entries nofun fun _ hr => Progress.done.inj hr ▸ hgives
  | finish i ctx s hi =>
    obtain ⟨hgives, husable, hentries⟩ := finish_cases h.usable h.entries (h.missed i hi) ctx s
    exact h.update husable hentries nofun fun _ hr => Progress.done.inj hr ▸ hgives

theorem Invariant.run (hcalls : TellApart calls) (hfits : ∀ i, (calls i).Fits)
    (h : Invariant cache calls st) (hrun : Run cache calls st st') : Invariant cache calls st' := by
  induction hrun with
  | refl => exact h
  | tail _ hstep ih => exact ih.step hcalls hfits hstep

/-- A whole check is one of the ways in which a call can take its steps. -/
theorem checkUnit_run {i : ι} (hi : st.progress i = .waiting) (ctx : Trace.Context) (s : Session) :
    let y := (checkUnit host ctx ((calls i).withCache cache) (calls i).path (calls i).unit
      (calls i).digest).effect s st.folder
    Run cache calls st ⟨y.2, update st.progress i (.done y.1)⟩ := by
  cases hcancelled : (calls i).options.isCancelled with
  | true =>
    have hlook : Step cache calls st _ := .look i s hi
    rw [Call.look, hcancelled] at hlook
    have hoptions : ((calls i).withCache (some cache)).isCancelled = true := hcancelled
    rw [checkUnit_cancelled hoptions]
    exact .single hlook
  | false =>
    obtain ⟨ctx', s', hcheck⟩ := checkUnit_effect (o := (calls i).withCache cache) hcancelled ctx
      (calls i).path (calls i).unit (calls i).digest s st.folder
    have hlook : Step cache calls st _ := .look i s' hi
    rw [Call.look, hcancelled] at hlook
    rw [hcheck]
    rcases hlookup : (lookup host ((calls i).withCache cache) (calls i).unit
      (calls i).digest).outcome s' st.folder with ⟨e | _ | v, s'', g⟩ <;> rw [hlookup] at hlook
    · exact .single hlook
    · have hfinish : Step cache calls ⟨g, update st.progress i .missed⟩ _ :=
        .finish i ctx' s'' (update_self ..)
      rw [update_idem] at hfinish
      exact .tail (.single hlook) hfinish
    · exact .single hlook

/-- Calls that share a cache do not notice each other. Each has its own options, and they look up
and store in any order, starting from an empty cache; equal digests belong to equal units, and a
cache can hold all verdicts. Then every call that has come to an end gave what the same call gives
without a cache: it failed alike, or its verdict names the same unit and says the same, but for the
note on timings.

A call that waits can be carried out as a whole at any time, and a call that missed can finish. -/
theorem shared_cache_is_transparent (hcalls : TellApart calls) (hfits : ∀ i, (calls i).Fits)
    (husable : cache.Usable f) (hempty : ∀ d, cache.held? f d = none)
    (hrun : Run cache calls (.start f) st) :
    (∀ i r, st.progress i = .done r → ∀ ctx s g, SameResult (calls i).options r
      ((checkUnit host ctx ((calls i).withCache none) (calls i).path (calls i).unit
        (calls i).digest).effect s g).1) ∧
    (∀ i, st.progress i = .waiting → ∀ ctx s,
      let y := (checkUnit host ctx ((calls i).withCache cache) (calls i).path (calls i).unit
        (calls i).digest).effect s st.folder
      Run cache calls st ⟨y.2, update st.progress i (.done y.1)⟩) ∧
    (∀ i, st.progress i = .missed → ∃ g r,
      Step cache calls st ⟨g, update st.progress i (.done r)⟩) := by
  have hinvariant := (Invariant.start husable hempty).run hcalls hfits hrun
  refine ⟨fun i r hr ctx s g => ?_, fun i hi ctx s => checkUnit_run hi ctx s, fun i hi => ?_⟩
  · have hverdict : IsVerdict ((calls i).withCache none) (calls i).unit (calls i).digest
        ((checkUnit host ctx ((calls i).withCache none) (calls i).path (calls i).unit
          (calls i).digest).effect s g).1 := checkUnit_isVerdict rfl s g
    exact hinvariant.done i r hr _ hverdict
  · exact ⟨_, _, .finish i default default hi⟩

end

/-- Two checks of a unit with two faults. The first one shows one of them and fails from warnings
on; what it stores is served to the second one, which shows both and fails from errors on. -/
theorem shared_cache_is_transparent_pair :
    let cache : Cache := ⟨"/c"⟩
    let f := empty "/w" []
    let unit : SourceUnit :=
      ⟨"m", [], .empty, [⟨.warning, ⟨1⟩, "x", .zero, []⟩, ⟨.warning, ⟨2⟩, "y", .zero, []⟩]⟩
    let calls : Bool → Call := fun second =>
      ⟨if second then ⟨.error, 0, false, none, false⟩ else ⟨.warning, 1, true, none, false⟩,
        "m.unit", unit, ⟨List.replicate 32 7⟩⟩
    TellApart calls ∧ (∀ i, (calls i).Fits) ∧ cache.Usable f ∧ (∀ d, cache.held? f d = none) ∧
    ∃ st, Run cache calls (.start f) st ∧
      (∀ i, ∃ r, st.progress i = .done r ∧ SameResult (calls i).options r
      ((checkUnit host .root ((calls i).withCache none) (calls i).path (calls i).unit
        (calls i).digest).effect (.start .off) f).1) ∧
      ∃ v, st.progress true = .done (.ok v) ∧ v.isCached = true ∧ v.isFatal = false ∧
        v.faults = unit.faults := by
  intro cache f unit calls
  have hcalls : TellApart calls :=
    ⟨fun i j _ => by cases i <;> cases j <;> rfl, fun i j _ => by cases i <;> cases j <;> rfl⟩
  have hfits (i) : (calls i).Fits := by cases i <;> decide +kernel
  obtain ⟨husable, hempty⟩ : cache.Usable f ∧ ∀ d, cache.held? f d = none :=
    Cache.usable_of_unused (by decide +kernel) (by decide +kernel) (by decide +kernel)
  -- the first check as a whole, then the second one
  obtain ⟨y, hy⟩ : ∃ y, y = (checkUnit host .root ((calls false).withCache cache) "m.unit" unit
    (calls false).digest).effect (.start .off) f := ⟨_, rfl⟩
  have hfirst : Run cache calls (.start f) ⟨y.2, update (fun _ => .waiting) false (.done y.1)⟩ :=
    hy ▸ (shared_cache_is_transparent hcalls hfits husable hempty .refl).2.1 false rfl .root
      (.start .off)
  obtain ⟨z, hz⟩ : ∃ z, z = (checkUnit host .root ((calls true).withCache cache) "m.unit" unit
    (calls true).digest).effect (.start .off) y.2 := ⟨_, rfl⟩
  have hsecond : Run cache calls _ ⟨z.2, update _ true (.done z.1)⟩ :=
    hz ▸ (shared_cache_is_transparent hcalls hfits husable hempty hfirst).2.1 true rfl .root
      (.start .off)
  have hrun := hfirst.trans hsecond
  have hsame := (shared_cache_is_transparent hcalls hfits husable hempty hrun).1
  refine ⟨hcalls, hfits, husable, hempty, _, hrun, fun i => ?_, ?_⟩
  · cases i with
    | false => exact ⟨_, rfl, hsame false _ rfl _ _ _⟩
    | true => exact ⟨_, rfl, hsame true _ rfl _ _ _⟩
  · have hserved : z.1.toOption.map (fun v => (v.isCached, v.isFatal, v.faults)) =
        some (true, false, unit.faults) := by
      rw [hz, hy]
      decide +kernel
    obtain ⟨v, hv, hfields⟩ := Option.map_eq_some_iff.1 hserved
    obtain ⟨hcached, hfatal, hfaults⟩ : v.isCached = true ∧ v.isFatal = false ∧
      v.faults = unit.faults := by
      simpa only [Prod.mk.injEq] using hfields
    have hresult : z.1 = .ok v := by
      rcases h : z.1 with e | w <;> rw [h] at hv <;> cases hv
      rfl
    exact ⟨v, congrArg Progress.done hresult, hcached, hfatal, hfaults⟩

end UnitCheck.Check
