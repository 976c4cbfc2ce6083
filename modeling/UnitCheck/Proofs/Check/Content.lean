import UnitCheck.Check.Units
import UnitCheck.Proofs.Check.Caching

/-!
# Files with the same content

The digest of a file covers its bytes and nothing else, and so does the key of its verdict in a
cache. Files with the same bytes get the same verdict but for one thing: a unit that has no name is
called like its file (`same_content_same_verdict`). A verdict that was stored for another file comes
with the name of that file (`cached_unit_has_other_name`).
-/

namespace UnitCheck

open Check Folder

def SourceUnit.inFile (u : SourceUnit) (path : Text) : SourceUnit :=
  { u with name := nameOf path u.name }

namespace Check

def stem (path : Text) : Text := (Path.base path).dropTail SourceUnit.extension

theorem nameOf_eq_iff (a b name : Text) :
    nameOf a name = nameOf b name ↔ name.isEmpty = false ∨ stem a = stem b := by
  unfold nameOf
  cases name.isEmpty <;> simp [stem]

/-- What is read depends on the path only in the name of the unit and in what is said about the
failure. -/
theorem load_run {σ : Type} {h : Host (StateM σ)} {path : Text} {w : σ} {bs : List UInt8}
    (hread : ((h.read path).run w).1 = .ok bs) :
    ((load h path).run w).1 = match SourceUnit.decode bs with
      | .error e => .error (.content path e)
      | .ok u => .ok (u.inFile path, .ofContent bs) := by
  rw [load, StateT.run_bind]
  rcases hrun : (h.read path).run w with ⟨r, w'⟩
  rw [hrun] at hread
  obtain rfl : r = .ok bs := hread
  change ((match SourceUnit.decode bs with
    | .error e => pure (.error (.content path e))
    | .ok u => pure (.ok (u.inFile path, .ofContent bs)) :
      StateM σ (Except LoadError (SourceUnit × Digest))).run w').1 = _
  cases SourceUnit.decode bs <;> rfl

/-- Everything that is stored of a verdict is the same, but for the name of the unit. The note on
timings is left aside. -/
structure Verdict.EqualButName (o : Options) (v w : Verdict) : Prop where
  digest : v.digest = w.digest
  code : v.code = w.code
  typed : v.typed = w.typed
  faults : ∃ fs, v.faults = fs ++ v.timingNote o ∧ w.faults = fs ++ w.timingNote o
  dropped : v.dropped = w.dropped
  isFatal : v.isFatal = w.isFatal

namespace Checking

variable {σ : Type} {h : Host (StateM σ)} {a b : Text} {u : SourceUnit} {d : Digest}

/-- Without a cache, verdicts on one content differ in the name of the unit only. -/
theorem checkUnit_inFile {o : Options} (ho : o.cache = none) (c c' : Trace.Context) (s s' : Session)
    (x x' : σ) :
    Alike (fun v w => v.unit = nameOf a u.name ∧ w.unit = nameOf b u.name ∧ v.EqualButName o w)
      ((checkUnit h c o a (u.inFile a) d).effect s x).1
      ((checkUnit h c' o b (u.inFile b) d).effect s' x').1 := by
  have hverdict : IsVerdict o (u.inFile a) d ((checkUnit h c o a (u.inFile a) d).effect s x).1 :=
    checkUnit_isVerdict ho s x
  have hverdict' : IsVerdict o (u.inFile b) d
    ((checkUnit h c' o b (u.inFile b) d).effect s' x').1 :=
    checkUnit_isVerdict ho s' x'
  cases hcancelled : o.isCancelled with
  | true =>
    rw [hverdict.of_cancelled hcancelled, hverdict'.of_cancelled hcancelled]
    exact .failed _
  | false =>
    cases hp : passes u.tree with
    | error e =>
      rw [hverdict.of_error hcancelled hp, hverdict'.of_error hcancelled hp]
      exact .failed _
    | ok p =>
      obtain ⟨t, ht⟩ := hverdict.of_ok hcancelled hp
      obtain ⟨t', ht'⟩ := hverdict'.of_ok hcancelled hp
      rw [ht, ht', shown_eq o _ rfl, shown_eq o _ rfl]
      exact .found ⟨rfl, rfl, rfl, rfl, rfl, ⟨_, rfl, rfl⟩, rfl, rfl⟩

/-- A verdict that was stored for one file and is found for another with the same content differs in
the name of the unit only from the verdict that would be reached for the other. -/
theorem checkUnit_after_inFile {cache : Cache} {f : Folder} (husable : cache.Usable f)
    (hempty : cache.held? f d = none) (hd : d.isZero = false) {o o' : Options}
    (ho : o.isCancelled = false) (ho' : o'.isCancelled = false)
    (hfits : Storable (u.inFile a) d o.threshold)
    (c c' c'' : Trace.Context) (s s' s'' : Session) (g : Folder) :
    let stored := (checkUnit host c { o with cache := some cache } a (u.inFile a) d).effect s f
    Alike (fun v w => v.unit = nameOf a u.name ∧ w.unit = nameOf b u.name ∧ v.Agrees o' w)
      ((checkUnit host c' { o' with cache := some cache } b (u.inFile b) d).effect s' stored.2).1
      ((checkUnit host c'' { o' with cache := none } b (u.inFile b) d).effect s'' g).1 := by
  intro stored
  have hverdict : IsVerdict { o' with cache := none } (u.inFile b) d
      ((checkUnit host c'' { o' with cache := none } b (u.inFile b) d).effect s'' g).1 :=
    checkUnit_isVerdict rfl s'' g
  obtain ⟨ctx, s1, hfirst⟩ := checkUnit_effect (o := { o with cache := some cache }) ho c a
    (u.inFile a) d s f
  obtain ⟨ctx', s2, hsecond⟩ :=
    checkUnit_effect (o := { o' with cache := some cache }) ho' c' b (u.inFile b) d s' stored.2
  rw [lookup_miss rfl husable (.inr hempty)] at hfirst
  have hstored :
    stored.2 = ((conclude host ctx { o with cache := some cache } a (u.inFile a) d).effect
    s1 f).2 := congrArg Prod.snd hfirst
  rw [hsecond]
  rcases conclude_effect (o := { o with cache := some cache }) rfl husable ctx a (u.inFile a) d
    s1 with
    ⟨e, hp, -, hfolder⟩ | ⟨p, t, hp, -, hfolder⟩
  · -- no verdict was reached, and none will be
    rw [← hstored] at hfolder
    rw [hfolder, lookup_miss rfl husable (.inr hempty)]
    rcases conclude_effect (o := { o' with cache := some cache }) rfl husable ctx' b (u.inFile b) d
      s2 with
      ⟨e', hp', hresult, -⟩ | ⟨p', t, hp', -, -⟩
    · cases hp.symm.trans hp'
      dsimp only
      rw [hresult, hverdict.of_error ho' hp]
      exact .failed _
    · cases hp.symm.trans hp'
  · rw [← hstored] at hfolder
    have hheld : cache.held? stored.2 d =
      some (Cache.entryBytes (.ofPasses (u.inFile a) d o.threshold p t)) := by
      rw [hfolder.held, if_pos ⟨hd, rfl⟩]
    rw [lookup_hit rfl hfolder.usable hd hheld (hfits.fits hp t)]
    obtain ⟨t', ht'⟩ := hverdict.of_ok ho' hp
    rw [ht']
    refine .found ⟨?_, ?_, served_agrees _ rfl⟩
    · rw [unit_served]
      rfl
    · rw [unit_shown _ _ rfl]
      rfl

end Checking

open Checking

/-- The content of a file determines its verdict but for the name of the unit. Two files with the
same bytes are both unreadable for the same reason, or they give one unit and one digest, of which
only the name differs; the names are the same exactly if the unit has a name or the files are called
alike. Without a cache, whatever the options are, both checks fail alike or give verdicts that are
equal in everything that is stored, but for that name. With a cache, the second file gets what the
first one stored, which is its own verdict under the name of the first one. -/
theorem same_content_same_verdict {σ : Type} {h : Host (StateM σ)} {a b : Text} {w w' : σ}
    {bs : List UInt8} (ha : ((h.read a).run w).1 = .ok bs) (hb : ((h.read b).run w').1 = .ok bs) :
    (∃ e, ((load h a).run w).1 = .error (.content a e) ∧
      ((load h b).run w').1 = .error (.content b e)) ∨
    ∃ (u : SourceUnit) (d : Digest), d = .ofContent bs ∧
      ((load h a).run w).1 = .ok (u.inFile a, d) ∧ ((load h b).run w').1 = .ok (u.inFile b, d) ∧
      (nameOf a u.name = nameOf b u.name ↔ u.name.isEmpty = false ∨ stem a = stem b) ∧
      (∀ o : Options, o.cache = none → ∀ c c' s s' x x',
        Alike (fun v w => v.unit = nameOf a u.name ∧ w.unit = nameOf b u.name ∧ v.EqualButName o w)
          ((checkUnit h c o a (u.inFile a) d).effect s x).1
          ((checkUnit h c' o b (u.inFile b) d).effect s' x').1) ∧
      (∀ (cache : Cache) (f : Folder), cache.Usable f → cache.held? f d = none → d.isZero = false →
        ∀ o o' : Options, o.isCancelled = false → o'.isCancelled = false →
        Storable (u.inFile a) d o.threshold →
        ∀ c c' c'' s s' s'' g,
          let stored :=
            (checkUnit host c { o with cache := some cache } a (u.inFile a) d).effect s f
          Alike (fun v w => v.unit = nameOf a u.name ∧ w.unit = nameOf b u.name ∧ v.Agrees o' w)
            ((checkUnit host c' { o' with cache := some cache } b (u.inFile b) d).effect s'
              stored.2).1
            ((checkUnit host c'' { o' with cache := none } b (u.inFile b) d).effect s'' g).1) := by
  rw [load_run ha, load_run hb]
  cases SourceUnit.decode bs with
  | error e => exact .inl ⟨e, rfl, rfl⟩
  | ok u =>
    refine .inr ⟨u, _, rfl, rfl, rfl, nameOf_eq_iff a b u.name, fun o ho => checkUnit_inFile ho, ?_⟩
    intro cache f husable hempty hd o o' ho ho' hfits c c' c'' s s' s'' g
    exact checkUnit_after_inFile husable hempty hd ho ho' hfits c c' c'' s s' s'' g

/-- A file with a tree and nothing else: a record of one field, which is empty. -/
def bareTree : List UInt8 := [0x81, 0xA4, 0x74, 0x72, 0x65, 0x65, 0x80]

/-- A folder with two files that hold the same unit, which has no name. -/
def twoFiles : Folder :=
  ⟨"/w", [(["w"], .dir), (["w", "a.unit"], .file bareTree), (["w", "b.unit"], .file bareTree)], []⟩

/-- Both files give the same digest and, without a cache, the same verdict under two names. -/
theorem same_content_same_verdict_unnamed :
    ((host.read "a.unit").run twoFiles).1 = .ok bareTree ∧
    ((host.read "b.unit").run twoFiles).1 = .ok bareTree ∧
    ∃ (u : SourceUnit) (d : Digest),
      ((load host "a.unit").run twoFiles).1 = .ok (u.inFile "a.unit", d) ∧
      ((load host "b.unit").run twoFiles).1 = .ok (u.inFile "b.unit", d) ∧
      ∀ o : Options, o.cache = none → ∀ s,
        Alike (fun v w => v.unit = nameOf "a.unit" u.name ∧ w.unit = nameOf "b.unit" u.name ∧
          v.EqualButName o w)
          ((checkUnit host .root o "a.unit" (u.inFile "a.unit") d).effect s twoFiles).1
          ((checkUnit host .root o "b.unit" (u.inFile "b.unit") d).effect s twoFiles).1 := by
  have ha : ((host.read "a.unit").run twoFiles).1 = .ok bareTree := by decide +kernel
  have hb : ((host.read "b.unit").run twoFiles).1 = .ok bareTree := by decide +kernel
  have hloaded : ((load host "a.unit").run twoFiles).1.toOption.isSome = true := by decide +kernel
  refine ⟨ha, hb, ?_⟩
  rcases same_content_same_verdict ha hb with ⟨e, hfailed, -⟩ |
    ⟨u, d, -, hload, hload', -, hcheck, -⟩
  · rw [hfailed] at hloaded
    cases hloaded
  · exact ⟨u, d, hload, hload', fun o ho s => hcheck o ho .root .root s s twoFiles twoFiles⟩

/-- With a cache, the second file is said to hold a unit with the name of the first one. -/
theorem cached_unit_has_other_name :
    let units (cache : Option Cache) := ((checkUnits host ⟨.error, 0, false, cache, false⟩
      ["a.unit", "b.unit"]).effect (.start .off) twoFiles).1.toOption.map
        (List.map fun e => e.2.unit)
    units none = some [Text.ofString "a", Text.ofString "b"] ∧
    units (some ⟨"/c"⟩) = some [Text.ofString "a", Text.ofString "a"] := by
  decide +kernel

end Check

end UnitCheck
