import UnitCheck.Proofs.Check.Agreement
import UnitCheck.Proofs.Check.Cache
import UnitCheck.Proofs.Check.Session
import UnitCheck.Proofs.Check.Types

/-!
# Checks with a cache

What a check does to a folder in which it finds its cache. It looks its verdict up, which changes
nothing (`lookup_effect`). If there is none, it runs the passes and stores what they gave
(`conclude_effect`): one entry is set, the others stay. Nothing else of a check touches the folder
(`checkUnit_effect`). -/

namespace UnitCheck.Check

variable {u : SourceUnit} {d : Digest} {threshold : Severity}

/-- A cache can hold what a check of the unit comes to: the digest has its size and there is room
for the entry. That the types are in order is asked of trees with holes only; see
`Storable.fits`. -/
def Storable (u : SourceUnit) (d : Digest) (threshold : Severity) : Prop :=
  ∀ p, passes u.tree = .ok p → d.bytes.length = Digest.size ∧
    (Cache.entryCodec.encode ⟨Cache.version, some (.ofPasses u d threshold p .empty)⟩).Fits ∧
    (Resolution.WellFormed u.tree ∧ Syntax.areCompleteStmts u.tree.program = true ∨
      p.module.types.Writable)

instance : Decidable (Storable u d threshold) :=
  match h : passes u.tree with
  | .ok p => decidable_of_iff (_ ∧ _ ∧ (_ ∨ _))
    ⟨fun hp q hq => by cases h.symm.trans hq; exact hp, fun hx => hx p h⟩
  | .error _ => .isTrue fun _ hq => nomatch h.symm.trans hq

/-- The passes leave the types of a well-formed and complete tree in order. -/
theorem Storable.fits {p : Passes} (h : Storable u d threshold) (hp : passes u.tree = .ok p)
    (t : Timings) : (Verdict.ofPasses u d threshold p t).Fits := by
  obtain ⟨hdigest, hentry, htypes⟩ := h p hp
  refine ⟨rfl, hdigest, fun c hc => ?_, hentry⟩
  cases hc
  obtain ⟨hwf, hcomplete⟩ | htypes := htypes
  · obtain ⟨q, w, s, hq, hpassed⟩ := exists_passed hwf hcomplete
    cases hp.symm.trans hq
    rw [hpassed.types]
    exact hpassed.good.types.writable
  · exact htypes

/-- The folder behind storing a verdict. The zero digest names nothing, so nothing is stored under
it. -/
structure Cache.Stored (c : Cache) (d : Digest) (v : Verdict) (f g : Folder) : Prop where
  usable : c.Usable g
  held : ∀ e, c.held? g e =
    if d.isZero = false ∧ entryName e = entryName d then some (entryBytes v) else c.held? f e

namespace Checking

variable {cache : Cache} {f : Folder} {o : Options}

theorem clock_folder : Clock Folder.host Eq := ⟨fun _ => rfl, .trans, fun _ => rfl⟩

theorem act_outcome {α : Type} (a : StateM Folder α) (s : Session) (f : Folder) :
    (act a).outcome s f = (.ok (a.run f).1, s, (a.run f).2) := rfl

section

variable (ho : o.cache = some cache) (h : cache.Usable f)
include ho h

theorem lookup_effect (s : Session) :
    (lookup Folder.host o u d).outcome s f =
      (if d.isZero then .ok none
        else ((cache.held? f d).elim (.ok none) Cache.readEntry).mapError (.cacheLookup u.name), s,
          f) := by
  rw [lookup, ho]
  dsimp only
  split
  · rfl
  · have hget := Cache.get_run h d
    rw [outcome_bind_ok (act_outcome _ s f), hget]
    cases (cache.held? f d).elim (.ok none) Cache.readEntry <;> rfl

theorem lookup_miss (hmiss : d.isZero = true ∨ cache.held? f d = none) (s : Session) :
    (lookup Folder.host o u d).outcome s f = (.ok none, s, f) := by
  rw [lookup_effect ho h]
  rcases hmiss with hzero | hnone
  · rw [if_pos hzero]
  · rw [hnone]
    split <;> rfl

theorem lookup_hit (hd : d.isZero = false) {v : Verdict}
    (hheld : cache.held? f d = some (Cache.entryBytes v)) (hv : v.Fits) (s : Session) :
    (lookup Folder.host o u d).outcome s f = (.ok (some v.stored), s, f) := by
  have hentry := Cache.readEntry_entryBytes hv
  rw [lookup_effect ho h, hheld, hd, Option.elim_some, hentry]
  rfl

theorem store_effect (v : Verdict) (s : Session) :
    ∃ g, (store Folder.host o u d v).effect s f = (.ok (), g) ∧ cache.Stored d v f g := by
  rw [store, ho]
  dsimp only
  cases hzero : d.isZero with
  | true => exact ⟨f, rfl, h, fun e => (if_neg (by simp [hzero])).symm⟩
  | false =>
    obtain ⟨g, hput, -, husable, hheld⟩ := Cache.put_run h d v
    refine ⟨g, ?_, husable, fun e => ?_⟩
    · rw [effect, if_neg Bool.false_ne_true, outcome_bind_ok (act_outcome _ s f), hput]
      rfl
    · rw [hheld]
      simp [hzero]

/-- Passes that come to an end give a verdict, which is stored. -/
theorem conclude_effect (ctx : Trace.Context) (path : Text)
    (u : SourceUnit) (d : Digest) (s : Session) :
    let y := (conclude Folder.host ctx o path u d).effect s f
    (∃ a, passes u.tree = .error a ∧ y.1 = .error (.abort a) ∧ y.2 = f) ∨
      ∃ p t, passes u.tree = .ok p ∧
        y.1.map Prod.fst = .ok (shown o (.ofPasses u d o.threshold p t)) ∧
        cache.Stored d (.ofPasses u d o.threshold p t) f y.2 := by
  intro y
  rcases conclude_cases clock_folder s f with ⟨a, hp, hr, hf⟩ | ⟨p, t, s', f', hp, rfl, hr⟩
  · exact .inl ⟨a, hp, hr, hf.symm⟩
  · obtain ⟨g, hstore, hstored⟩ :=
      store_effect ho h (.ofPasses u d o.threshold p t) s'
    dsimp only at hr
    rw [hstore] at hr
    refine .inr ⟨p, t, hp, congrArg Prod.fst hr, ?_⟩
    have hg : y.2 = g := congrArg Prod.snd hr
    rwa [hg]

end

/-- A check looks its verdict up and, if there is none, concludes it. -/
theorem checkUnit_effect (ho : o.isCancelled = false) (ctx : Trace.Context) (path : Text)
    (u : SourceUnit) (d : Digest) (s : Session) (f : Folder) :
    ∃ ctx' s', (checkUnit Folder.host ctx o path u d).effect s f =
      match (lookup Folder.host o u d).outcome s' f with
      | (.ok (some v), _, g) => (.ok (served o u v).1, g)
      | (.ok none, s'', g) =>
        let y := (conclude Folder.host ctx' o path u d).effect s'' g
        (y.1.map Prod.fst, y.2)
      | (.error e, _, g) => (.error e, g) := by
  obtain ⟨ctx', s', f', rfl, hresult, hfolder⟩ := checkUnit_cases clock_folder ho s f
  refine ⟨ctx', s', Prod.ext_iff.2 ⟨hresult.trans ?_, hfolder.symm.trans ?_⟩⟩
  all_goals
    rw [effect, decide, outcome_bind]
    rcases (lookup Folder.host o u d).outcome s' f with ⟨_ | _ | v, s'', g⟩ <;> rfl

end Checking

end UnitCheck.Check
