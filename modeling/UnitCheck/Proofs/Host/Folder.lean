import UnitCheck.Host.Folder
import Mathlib.Data.List.Basic

/-!
# Files below directories

What the actions of a folder do is said in terms of `Folder.node?`, by the parts of paths: a path is
found if everything above it is a directory (`Open`), and missing directories are made where no file
is in the way (`Clear`). Making directories, writing a file and moving a file succeed then, and each
of them leaves everything else as it is.
-/

namespace UnitCheck.Folder

open List

variable {f g : Folder} {p : Text} {ps qs rs : List Text} {c : List UInt8}

def Open (f : Folder) (ps : List Text) : Prop := ∀ k < ps.length, f.node? (ps.take k) = some .dir

def Clear (f : Folder) (ps : List Text) : Prop := ∀ k c, f.node? (ps.take k) ≠ some (.file c)

/-- A path that can lead to a file. -/
structure IsFilePath (p : Text) : Prop where
  isEmpty : p.isEmpty = false
  nul_notMem : 0 ∉ p.bytes
  endsWith_slash : p.endsWith "/" = false

/-! ## Nodes -/

variable {α β : Type} {a : α} {n : FolderNode} {m target : Text}

theorem lookup_filter [BEq α] [LawfulBEq α] (keep : α → Bool) (ha : keep a = true)
    (xs : List (α × β)) : (xs.filter fun x => keep x.1).lookup a = xs.lookup a := by
  induction xs with
  | nil => rfl
  | cons x xs ih =>
    obtain ⟨b, y⟩ := x
    rw [lookup_cons]
    cases hb : keep b with
    | true => rw [filter_cons_of_pos (by exact hb), lookup_cons, ih]
    | false =>
      rw [filter_cons_of_neg (by simp [hb]), ih]
      split
      next heq =>
        rw [eq_of_beq heq] at ha
        rw [ha] at hb
        cases hb
      next => rfl

theorem node?_set (hps : ps ≠ []) (n : FolderNode) (qs : List Text) :
    (f.set ps n).node? qs = if qs = ps then some n else f.node? qs := by
  unfold node? set
  by_cases heq : qs = ps
  · subst heq
    rw [if_neg (by simpa using hps), if_pos rfl, lookup_cons, beq_self_eq_true]
  · rw [if_neg heq]
    have hkeep := lookup_filter (fun rs => rs != ps) (by simpa using heq) f.nodes
    rw [lookup_cons, beq_eq_false_iff_ne.2 heq]
    rw [hkeep]

theorem parts_congr (h : g.workingDir = f.workingDir) (p : Text) : g.parts p = f.parts p := by
  rw [parts, parts, h]

/-! ## Finding -/

theorem blocked?_of_open (h : f.Open ps) : f.blocked? ps = none := by
  rw [blocked?, List.findSome?_eq_none_iff]
  intro k hk
  rw [h k (mem_range.1 hk)]

/-- Without files in the way, directories can only be missing. -/
theorem blocked?_of_clear (hclear : f.Clear ps.dropLast) (h : ¬ f.Open ps) :
    f.blocked? ps = some .notFound := by
  have hnode {k : Nat} (hk : k < ps.length) : f.node? (ps.take k) = some .dir ∨
    f.node? (ps.take k) = none := by
    have hfile := hclear k
    rw [dropLast_eq_take, take_take, Nat.min_eq_left (by omega)] at hfile
    cases hnode : f.node? (ps.take k) with
    | none => exact .inr rfl
    | some n =>
      cases n with
      | dir => exact .inl rfl
      | file c => exact absurd hnode (hfile c)
  cases hblocked : f.blocked? ps with
  | none =>
    refine absurd (fun k hk => ?_) h
    rw [blocked?, List.findSome?_eq_none_iff] at hblocked
    have htest := hblocked k (mem_range.2 hk)
    rcases hnode hk with hdir | hnone
    · exact hdir
    · rw [hnone] at htest
      cases htest
  | some e =>
    obtain ⟨k, hk, htest⟩ := exists_of_findSome?_eq_some hblocked
    rcases hnode (mem_range.1 hk) with hdir | hnone
    · rw [hdir] at htest
      cases htest
    · rw [hnone] at htest
      exact htest.symm

theorem find_of_blocked? (hp : IsFilePath p) {e : PathFailure}
    (h : f.blocked? (f.parts p) = some e) : f.find p = .error e := by
  have hnul : p.bytes.contains 0 = false := by simpa using hp.nul_notMem
  simp only [find, hp.isEmpty, hnul, h, Bool.false_eq_true, if_false]

theorem find_of_open (hp : IsFilePath p) (h : f.Open (f.parts p)) :
    f.find p = match f.node? (f.parts p) with
      | some n => .ok n
      | none => .error .notFound := by
  have hnul : p.bytes.contains 0 = false := by simpa using hp.nul_notMem
  simp only [find, hp.isEmpty, hnul, blocked?_of_open h, hp.endsWith_slash]
  cases f.node? (f.parts p) with
  | none => rfl
  | some n => cases n <;> rfl

/-- Reading where there is no directory gives the file, or finds none. -/
theorem read_of_clear (hp : IsFilePath p) (hclear : f.Clear (f.parts p).dropLast)
    (hdir : f.node? (f.parts p) ≠ some .dir) :
    (∃ c, f.Open (f.parts p) ∧ f.node? (f.parts p) = some (.file c) ∧ f.read p = .ok c) ∨
      ((f.Open (f.parts p) → f.node? (f.parts p) = none) ∧
        f.read p = .error ⟨"open", p, .notFound⟩) := by
  by_cases hopen : f.Open (f.parts p)
  · have hfind := find_of_open hp hopen
    cases hnode : f.node? (f.parts p) with
    | none =>
      rw [hnode] at hfind
      refine .inr ⟨fun _ => rfl, ?_⟩
      rw [read, hfind]
      rfl
    | some n =>
      rw [hnode] at hfind
      cases n with
      | dir => exact absurd hnode hdir
      | file c =>
        refine .inl ⟨c, hopen, rfl, ?_⟩
        rw [read, hfind]
        rfl
  · refine .inr ⟨fun h => absurd h hopen, ?_⟩
    rw [read, find_of_blocked? hp (blocked?_of_clear hclear hopen)]
    rfl

/-! ## Making directories -/

/-- Directories were made along a path, and nothing else was done. -/
structure Paved (f g : Folder) (ps : List Text) : Prop where
  workingDir : g.workingDir = f.workingDir
  elsewhere : ∀ qs, (∀ k, qs ≠ ps.take k) → g.node? qs = f.node? qs
  dirs : ∀ qs, f.node? qs = some .dir → g.node? qs = some .dir
  clear : g.Clear ps

theorem makeEach_paved (hclear : f.Clear ps) (ns : List Nat) :
    ∃ g, makeEach f ps ns = .ok g ∧ f.Paved g ps ∧ ∀ k ∈ ns, g.node? (ps.take k) = some .dir := by
  induction ns generalizing f with
  | nil => exact ⟨f, rfl, ⟨rfl, fun _ _ => rfl, fun _ => id, hclear⟩, fun k hk => nomatch hk⟩
  | cons n ns ih =>
    unfold makeEach
    cases hnode : f.node? (ps.take n) with
    | some x =>
      cases x with
      | file c => exact absurd hnode (hclear n c)
      | dir =>
        obtain ⟨g, hg, hpaved, hdirs⟩ := ih hclear
        refine ⟨g, hg, hpaved, fun k hk => ?_⟩
        rcases mem_cons.1 hk with rfl | hk
        · exact hpaved.dirs _ hnode
        · exact hdirs k hk
    | none =>
      have hne : ps.take n ≠ [] := by
        intro hnil
        rw [hnil] at hnode
        cases hnode
      have hset := node?_set (f := f) hne .dir
      have hclear' : (f.set (ps.take n) .dir).Clear ps := by
        intro k c
        rw [hset]
        split
        · exact nofun
        · exact hclear k c
      obtain ⟨g, hg, hpaved, hdirs⟩ := ih hclear'
      refine ⟨g, hg, ⟨hpaved.workingDir, fun qs hqs => ?_, fun qs hqs => ?_, hpaved.clear⟩,
        fun k hk => ?_⟩
      · rw [hpaved.elsewhere qs hqs, hset, if_neg (hqs n)]
      · refine hpaved.dirs qs ?_
        rw [hset]
        split
        · rfl
        · exact hqs
      · rcases mem_cons.1 hk with rfl | hk
        · exact hpaved.dirs _ (by rw [hset, if_pos rfl])
        · exact hdirs k hk

theorem makeDirs_of_clear (hp : p.isEmpty = false) (hclear : f.Clear (f.parts p)) :
    ∃ g, f.makeDirs p = .ok g ∧ f.Paved g (f.parts p) ∧
      ∀ k, g.node? ((f.parts p).take k) = some .dir := by
  obtain ⟨g, hg, hpaved, hdirs⟩ := makeEach_paved hclear (.range ((f.parts p).length + 1))
  refine ⟨g, ?_, hpaved, fun k => ?_⟩
  · simp only [makeDirs, hp, Bool.false_eq_true, if_false, hg]
  · rcases Nat.lt_or_ge k ((f.parts p).length + 1) with hk | hk
    · exact hdirs k (mem_range.2 hk)
    · have hall := hdirs (f.parts p).length (mem_range.2 .refl)
      rw [take_length] at hall
      rwa [take_of_length_le (by omega)]

/-! ## Writing and moving files -/

theorem write_of_open (hp : IsFilePath p) (hne : f.parts p ≠ []) (hopen : f.Open (f.parts p))
    (hdir : f.node? (f.parts p) ≠ some .dir) (c : List UInt8) :
    f.write p c = .ok (f.set (f.parts p) (.file c)) := by
  have hfind := find_of_open hp hopen
  have hpos : 0 < (f.parts p).length := length_pos_iff.2 hne
  have hparent : f.node? (f.parts p).dropLast = some .dir := by
    rw [dropLast_eq_take]
    exact hopen _ (by omega)
  cases hnode : f.node? (f.parts p) with
  | none =>
    rw [hnode] at hfind
    simp [write, hfind, hp.isEmpty, hparent, hp.endsWith_slash]
  | some n =>
    cases n with
    | dir => exact absurd hnode hdir
    | file c' =>
      rw [hnode] at hfind
      simp only [write, hfind]

theorem lookup_map [BEq α] [LawfulBEq α] {m : α → α} {b : α} {xs : List (α × β)}
    (h : ∀ x ∈ xs, m x.1 = a ↔ x.1 = b) :
    (xs.map fun x => (m x.1, x.2)).lookup a = xs.lookup b := by
  induction xs with
  | nil => rfl
  | cons x xs ih =>
    have hrest := ih fun y hy => h y (mem_cons_of_mem x hy)
    have hkey : (a == m x.1) = (b == x.1) := by
      rw [Bool.eq_iff_iff, beq_iff_eq, beq_iff_eq, eq_comm, h x mem_cons_self, eq_comm]
    rw [map_cons, lookup_cons, lookup_cons, hkey, hrest]

theorem isUnder_iff : isUnder ps qs = true ↔ ∃ rest, qs = ps ++ rest := by
  rw [isUnder, isPrefixOf_iff_prefix]
  exact ⟨fun ⟨rest, h⟩ => ⟨rest, h.symm⟩, fun ⟨rest, h⟩ => ⟨rest, h.symm⟩⟩

theorem isUnder_self (ps : List Text) : isUnder ps ps = true := isUnder_iff.2 ⟨[], by simp⟩

theorem take_ne_concat (ps : List Text) (k : Nat) (n : Text) : ps.take k ≠ ps ++ [n] := by
  intro heq
  have hlength := congrArg List.length heq
  rw [length_append, length_take, length_singleton] at hlength
  omega

theorem open_concat (h : ∀ k, f.node? (ps.take k) = some .dir) (n : Text) : f.Open (ps ++ [n]) := by
  intro k hk
  rw [length_append, length_singleton] at hk
  rw [take_append_of_le_length (by omega)]
  exact h k

theorem isUnder_concat {n : Text} (h : n ≠ m) : isUnder (ps ++ [n]) (ps ++ [m]) = false := by
  rw [← Bool.not_eq_true, isUnder_iff]
  rintro ⟨rest, heq⟩
  rw [append_assoc, append_cancel_left_eq, singleton_append, List.cons.injEq] at heq
  exact h heq.1.symm

theorem isUnder_take (ps : List Text) (k : Nat) (n : Text) :
    isUnder (ps ++ [n]) (ps.take k) = false := by
  rw [← Bool.not_eq_true, isUnder_iff]
  rintro ⟨rest, heq⟩
  have hlength := congrArg List.length heq
  rw [length_append, length_append, length_take, length_singleton] at hlength
  omega

theorem ne_nil_of_isUnder (h : isUnder ps qs = false) : ps ≠ [] := by
  rintro rfl
  cases h

theorem node?_of_ne_nil (h : ps ≠ []) : f.node? ps = f.nodes.lookup ps := by
  rw [node?, if_neg (by simpa using h)]

/-- Moving a file takes it to its new place; what lies below neither place stays. -/
theorem rename_of_find {source : Text} (hfind : f.find source = .ok n)
    (hps : f.parts source = ps) (hqs : f.parts target = qs)
    (hapart : isUnder qs ps = false) (hapart' : isUnder ps qs = false) :
    ∃ g, f.rename source target = .ok g ∧ g.workingDir = f.workingDir ∧
      g.node? qs = f.node? ps ∧ g.node? ps = none ∧
      ∀ rs, isUnder ps rs = false → isUnder qs rs = false → g.node? rs = f.node? rs := by
  let moved := fun rs => if isUnder ps rs then qs ++ rs.drop ps.length else rs
  let others := f.nodes.filter fun x => !isUnder qs x.1
  have hothers {x : List Text × FolderNode} (hx : x ∈ others) : isUnder qs x.1 = false := by
    simpa [others] using (mem_filter.1 hx).2
  have hkept {rs : List Text} (hrs : isUnder qs rs = false) :
    others.lookup rs = f.nodes.lookup rs :=
    lookup_filter (fun rs => !isUnder qs rs) (by simp [hrs]) f.nodes
  -- only the file itself comes to the new place
  have hmoved {rs : List Text} (hrs : isUnder qs rs = false) : moved rs = qs ↔ rs = ps := by
    simp only [moved]
    split
    next hunder =>
      obtain ⟨rest, rfl⟩ := isUnder_iff.1 hunder
      simp
    next hunder =>
      constructor
      · rintro rfl
        rw [isUnder_self] at hrs
        cases hrs
      · rintro rfl
        exact absurd (isUnder_self rs) hunder
  have hleft (rs : List Text) : moved rs ≠ ps := by
    simp only [moved]
    split
    · intro heq
      rw [isUnder_iff.2 ⟨_, heq.symm⟩] at hapart
      cases hapart
    next hunder =>
      rintro rfl
      exact hunder (isUnder_self rs)
  -- nothing comes from below the old place or to below the new one
  have hstays {rs r : List Text} (hp : isUnder ps r = false) (hq : isUnder qs r = false) :
      moved rs = r ↔ rs = r := by
    simp only [moved]
    split
    next hunder =>
      constructor
      · rintro rfl
        rw [isUnder_iff.2 ⟨_, rfl⟩] at hq
        cases hq
      · rintro rfl
        rw [hunder] at hp
        cases hp
    next => exact .rfl
  refine ⟨{ f with nodes := others.map fun x => (moved x.1, x.2) }, ?_, rfl, ?_, ?_,
    fun rs hp hq => ?_⟩
  · simp only [rename, hfind, hps, hqs]
    rfl
  · rw [node?_of_ne_nil (ne_nil_of_isUnder hapart), node?_of_ne_nil (ne_nil_of_isUnder hapart')]
    rw [lookup_map fun x hx => hmoved (hothers hx), hkept hapart]
  · rw [node?_of_ne_nil (ne_nil_of_isUnder hapart')]
    rw [lookup_eq_none_iff]
    intro x hx
    obtain ⟨y, -, rfl⟩ := mem_map.1 hx
    simpa using (hleft y.1).symm
  · by_cases hnil : rs = []
    · subst hnil
      rfl
    · rw [node?_of_ne_nil hnil, node?_of_ne_nil hnil]
      rw [lookup_map fun x _ => hstays hp hq, hkept hq]

/-- A file is written under one name and moved to another one in the same directory. -/
theorem write_rename {dir : List Text} {draft : Text} {n : Text} (bs : List UInt8)
    (hdraft : IsFilePath draft) (hparts : f.parts draft = dir ++ [n])
    (hparts' : f.parts target = dir ++ [m])
    (hne : n ≠ m) (hdirs : ∀ k, f.node? (dir.take k) = some .dir)
    (hfile : f.node? (dir ++ [n]) ≠ some .dir) :
    ∃ g g', f.write draft bs = .ok g ∧ g.rename draft target = .ok g' ∧
      g'.workingDir = f.workingDir ∧ (∀ k, g'.node? (dir.take k) = some .dir) ∧
      ∀ x, g'.node? (dir ++ [x]) =
        if x = m then some (.file bs) else if x = n then none else f.node? (dir ++ [x]) := by
  have hopen {g : Folder} (hg : ∀ k, g.node? (dir.take k) = some .dir) : g.Open (dir ++ [n]) :=
    open_concat hg n
  have hwrite := write_of_open hdraft (by simp [hparts]) (hparts ▸ hopen hdirs) (hparts ▸ hfile) bs
  rw [hparts] at hwrite
  have hset := node?_set (f := f) (show dir ++ [n] ≠ [] by simp) (.file bs)
  have hdirs' (k : Nat) : (f.set (dir ++ [n]) (.file bs)).node? (dir.take k) = some .dir := by
    rw [hset, if_neg (take_ne_concat dir k n), hdirs k]
  have hdraft' : (f.set (dir ++ [n]) (.file bs)).parts draft = dir ++ [n] := hparts
  have hfind : (f.set (dir ++ [n]) (.file bs)).find draft = .ok (.file bs) := by
    rw [find_of_open hdraft (hdraft' ▸ hopen hdirs'), hdraft', hset, if_pos rfl]
  obtain ⟨g', hrename, hworking, hmoved, hgone, hstay⟩ :=
    rename_of_find hfind hdraft' hparts' (isUnder_concat hne.symm) (isUnder_concat hne)
  refine ⟨_, g', hwrite, hrename, hworking, fun k => ?_, fun x => ?_⟩
  · rw [hstay _ (isUnder_take dir k n) (isUnder_take dir k m), hdirs' k]
  · split
    next hx => rw [hx, hmoved, hset, if_pos rfl]
    next hx =>
      split
      next hx' => rw [hx', hgone]
      next hx' =>
        rw [hstay _ (isUnder_concat (.symm hx')) (isUnder_concat (.symm hx)), hset,
          if_neg (by simpa using hx')]

theorem change_run {act : Folder → Except PathError Folder} (h : act f = .ok g) :
    (change act).run f = (.ok (), g) := by
  rw [change, StateT.run_bind, StateT.run_get, pure_bind]
  simp only [h]
  rfl

end UnitCheck.Folder
