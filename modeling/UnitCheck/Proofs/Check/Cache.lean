import UnitCheck.Check.Cache
import UnitCheck.Proofs.Data.Digest
import UnitCheck.Proofs.Host.Folder
import UnitCheck.Proofs.Text.Path

/-!
# The cache as a store

A cache in a folder is a store of bytes by digest: `Cache.held?` is what it holds. If its directory
can be used at all (`Cache.Usable`), looking up reads the entry (`Cache.get_run`), and storing sets
one entry and leaves the others alone (`Cache.put_run`). Both go through a few actions on files;
that these succeed, and that entries and drafts do not get in each other's way, follows from the
names of the files. -/

namespace UnitCheck.Check.Cache

open Folder List UnitCheck.Path

variable {c : Cache} {f g : Folder} {d e : Digest}

/-! ## Names -/

theorem mem_toText {x : UInt8} (h : x ∈ d.toText.bytes) : x ≠ slash ∧ x ≠ 0 ∧ x ≠ 116 := by
  have hvalue := Hex.isSome_value?_of_mem h
  refine ⟨?_, ?_, ?_⟩ <;> rintro rfl <;> cases hvalue

theorem isName_of_bytes {n : Text} (h : ∀ x ∈ n.bytes, x ∈ d.toText.bytes ∨ x ≠ slash ∧ x ≠ 0)
    (hm : 109 ∈ n.bytes) : IsName n ∧ 0 ∉ n.bytes := by
  have hbyte {x : UInt8} (hx : x ∈ n.bytes) : x ≠ slash ∧ x ≠ 0 :=
    (h x hx).elim (fun hx => ⟨(mem_toText hx).1, (mem_toText hx).2.1⟩) id
  exact ⟨isName_of_mem (fun hx => (hbyte hx).1 rfl) hm (by decide), fun hx => (hbyte hx).2 rfl⟩

theorem isName_entryName (d : Digest) : IsName (entryName d) ∧ 0 ∉ (entryName d).bytes := by
  have hend : ∀ x ∈ (Text.ofString ".mp").bytes, x ≠ slash ∧ x ≠ 0 := by decide +kernel
  exact isName_of_bytes (fun x hx => (mem_append.1 hx).imp_right (hend x))
    (mem_append_right _ (by decide +kernel))

theorem isName_draftName (d : Digest) : IsName (draftName d) ∧ 0 ∉ (draftName d).bytes := by
  have hstart : ∀ x ∈ (Text.ofString "tmp-").bytes, x ≠ slash ∧ x ≠ 0 := by decide +kernel
  exact isName_of_bytes (fun x hx => (mem_append.1 hx).symm.imp_right (hstart x))
    (mem_append_left _ (by decide +kernel))

theorem entryName_injective (h : entryName d = entryName e) : key d version = key e version := by
  have hbytes : (key d version).toText.bytes ++ (Text.ofString ".mp").bytes =
      (key e version).toText.bytes ++ (Text.ofString ".mp").bytes := congrArg Text.bytes h
  have htext : (key d version).toText = (key e version).toText :=
    congrArg Text.mk (append_cancel_right hbytes)
  exact congrArg Digest.mk (Hex.encode_injective htext)

theorem entryName_ne_draftName (d e : Digest) : entryName d ≠ draftName e := by
  intro heq
  have hdraft : (draftName e).bytes.head? = some 116 := rfl
  rw [← heq, entryName, Text.bytes_append] at hdraft
  cases hbytes : (key d version).toText.bytes with
  | nil =>
    rw [hbytes] at hdraft
    cases hdraft
  | cons x xs =>
    rw [hbytes, cons_append, List.head?_cons, Option.some.injEq] at hdraft
    exact (mem_toText (hbytes ▸ mem_cons_self)).2.2 hdraft

/-! ## Places -/

def place (c : Cache) (f : Folder) : List Text := f.parts c.unitsDir

theorem unitsDir_eq_ofParts (c : Cache) :
    ∃ rooted ps, Settled rooted ps.reverse ∧ ps ≠ [] ∧ c.unitsDir = ofParts rooted ps ∧
      (0 ∉ c.dir.bytes → ∀ p ∈ ps, 0 ∉ p.bytes) := by
  have hname : IsName "units" :=
    isName_of_mem (x := 117) (by decide +kernel) (by decide +kernel) (by decide)
  have hunits : 0 ∉ (Text.ofString "units").bytes := by decide +kernel
  cases hdir : c.dir.isEmpty with
  | true =>
    obtain heq : c.dir = .empty := by
      cases hc : c.dir
      rw [hc] at hdir
      exact congrArg Text.mk (isEmpty_iff.1 hdir)
    refine ⟨false, ["units"], .name hname .root, by simp, ?_, fun _ p hp => ?_⟩
    · rw [unitsDir, heq]
      decide +kernel
    · rwa [mem_singleton.1 hp]
  | false =>
    refine ⟨isRooted c.dir, parts c.dir ++ [Text.ofString "units"],
      (settled_parts c.dir).concat hname,
      by simp, join_eq_ofParts hname hdir, fun hnul p hp hzero => ?_⟩
    rcases mem_append.1 hp with hp | hp
    · exact hnul (mem_of_mem_parts hp hzero)
    · rw [mem_singleton.1 hp] at hzero
      exact hunits hzero

theorem unitsDir_isEmpty (c : Cache) : c.unitsDir.isEmpty = false := by
  obtain ⟨rooted, ps, hsettled, hne, heq, -⟩ := c.unitsDir_eq_ofParts
  rw [heq, ofParts]
  split
  · rfl
  · rw [if_neg (by simpa using hne)]
    exact hsettled.join_ne_empty hne

/-- Files in the directory of the entries are found below its place. -/
theorem join_unitsDir (c : Cache) {n : Text} (hn : IsName n) :
    (∀ f : Folder, f.parts (join [c.unitsDir, n]) = c.place f ++ [n]) ∧
      (0 ∉ c.dir.bytes → 0 ∉ n.bytes → IsFilePath (join [c.unitsDir, n])) := by
  obtain ⟨rooted, ps, hsettled, hne, heq, hzero⟩ := c.unitsDir_eq_ofParts
  have hnonempty := c.unitsDir_isEmpty
  have hjoin : join [c.unitsDir, n] = ofParts rooted (ps ++ [n]) := by
    rw [join_eq_ofParts hn hnonempty, heq, isRooted_ofParts hsettled, parts_ofParts hsettled]
  rw [hjoin]
  refine ⟨fun f => ?_, fun hdir hname => ?_⟩
  · rw [place, heq, Folder.parts, Folder.parts, parts_absolute_concat hsettled hne hn]
  · obtain ⟨front, hfront⟩ := ofParts_concat rooted ps n
    refine ⟨?_, fun hmem => ?_, hfront ▸ hn.endsWith_slash front⟩
    · have hbytes : n.bytes ≠ [] := by simpa [Text.isEmpty] using hn.isEmpty
      rw [hfront]
      simp [Text.isEmpty, hbytes]
    · rcases mem_ofParts (by simp) hmem with hslash | ⟨p, hp, hmem⟩
      · cases hslash
      · rcases mem_append.1 hp with hp | hp
        · exact hzero hdir p hp hmem
        · exact hname (mem_singleton.1 hp ▸ hmem)

/-! ## The store -/

/-- The directory of the entries can be made where it is missing, and holds files only. -/
structure Usable (c : Cache) (f : Folder) : Prop where
  nul_notMem : 0 ∉ c.dir.bytes
  clear : f.Clear (c.place f)
  files : ∀ n, f.node? (c.place f ++ [n]) ≠ some .dir
  opened : ∀ n, f.node? (c.place f ++ [n]) ≠ none → f.Open (c.place f ++ [n])

def held? (c : Cache) (f : Folder) (d : Digest) : Option (List UInt8) :=
  match f.node? (c.place f ++ [entryName d]) with
  | some (.file bs) => some bs
  | _ => none

/-- A cache that nobody has used: no file is in the way, and its directory holds nothing. -/
theorem usable_of_unused (hnul : 0 ∉ c.dir.bytes)
    (hway : ∀ x ∈ f.nodes, x.1 <+: c.place f → x.2 = .dir)
    (hbelow : ∀ x ∈ f.nodes, x.1.dropLast ≠ c.place f) : c.Usable f ∧ ∀ d, c.held? f d = none := by
  have hmem {ps : List Text} {n : FolderNode} (h : f.nodes.lookup ps = some n) :
    (ps, n) ∈ f.nodes := by
    obtain ⟨l, l', heq, -⟩ := lookup_eq_some_iff.1 h
    exact heq ▸ mem_append_right _ mem_cons_self
  have hnone (n : Text) : f.node? (c.place f ++ [n]) = none := by
    rw [node?_of_ne_nil (by simp)]
    cases hnode : f.nodes.lookup (c.place f ++ [n]) with
    | none => rfl
    | some x => exact absurd dropLast_concat (hbelow _ (hmem hnode))
  refine ⟨⟨hnul, fun k bs hfile => ?_, fun n => by rw [hnone]; exact nofun,
    fun n hsome => absurd (hnone n) hsome⟩, fun d => by rw [held?, hnone]⟩
  by_cases hnil : (c.place f).take k = []
  · rw [hnil] at hfile
    cases hfile
  · rw [node?_of_ne_nil hnil] at hfile
    cases hway _ (hmem hfile) (List.take_prefix k _)

theorem Usable.read (h : c.Usable f) (d : Digest) :
    f.read (c.pathOf d) = match c.held? f d with
      | some bs => .ok bs
      | none => .error ⟨"open", c.pathOf d, .notFound⟩ := by
  obtain ⟨hname, hzero⟩ := isName_entryName d
  obtain ⟨hparts, hpath⟩ := c.join_unitsDir hname
  have hplace : f.parts (c.pathOf d) = c.place f ++ [entryName d] := hparts f
  have hread := read_of_clear (f := f) (hpath h.nul_notMem hzero)
  rw [← pathOf, hplace, dropLast_concat] at hread
  rcases hread h.clear (h.files _) with ⟨bs, -, hnode, hread⟩ | ⟨hnone, hread⟩
  · rw [hread, held?, hnode]
  · have hnode : f.node? (c.place f ++ [entryName d]) = none := by
      by_contra hsome
      exact hsome (hnone (h.opened _ hsome))
    rw [hread, held?, hnode]

theorem get_run (h : c.Usable f) (d : Digest) : (c.get Folder.host d).run f =
      ((c.held? f d).elim (.ok none) readEntry, f) := by
  have hread := h.read d
  have hrun : (Folder.host.read (c.pathOf d)).run f = (f.read (c.pathOf d), f) := rfl
  rw [get, StateT.run_bind, hrun, hread]
  cases c.held? f d <;> rfl

theorem andThen_run {a b : StateM Folder (Except PathError Unit)} {g : Folder}
    (ha : a.run f = (.ok (), g)) : (andThen a b).run f = b.run g := by
  rw [andThen, StateT.run_bind, ha]
  rfl

/-- Storing sets one entry and leaves the others alone. -/
theorem put_run (h : c.Usable f) (d : Digest) (v : Verdict) :
    ∃ g, (c.put Folder.host d v).run f = (.ok (), g) ∧ g.workingDir = f.workingDir ∧ c.Usable g ∧
      ∀ e, c.held? g e =
        if entryName e = entryName d then some (entryBytes v) else c.held? f e := by
  obtain ⟨hdraft, hdraft0⟩ := isName_draftName d
  obtain ⟨hparts, -⟩ := c.join_unitsDir (isName_entryName d).1
  obtain ⟨hdraftParts, hdraftPath⟩ := c.join_unitsDir hdraft
  obtain ⟨g1, hmake, (hpaved : f.Paved g1 (c.place f)),
    (hdirs : ∀ k, g1.node? ((c.place f).take k) = some .dir)⟩ :=
      makeDirs_of_clear c.unitsDir_isEmpty h.clear
  have hplace : c.place g1 = c.place f := parts_congr hpaved.workingDir _
  have hbelow (n : Text) : g1.node? (c.place f ++ [n]) = f.node? (c.place f ++ [n]) :=
    hpaved.elsewhere _ fun k heq => take_ne_concat (c.place f) k n heq.symm
  have hfile : g1.node? (c.place f ++ [draftName d]) ≠ some .dir := hbelow _ ▸ h.files _
  obtain ⟨g2, g, hwrite, hrename, hworking, hdirs', hnode⟩ :=
    write_rename (entryBytes v) (hdraftPath h.nul_notMem hdraft0) (hplace ▸ hdraftParts g1)
      (hplace ▸ hparts g1) (entryName_ne_draftName d d).symm hdirs hfile
  have hplace' : c.place g = c.place f := (parts_congr hworking _).trans hplace
  refine ⟨g, ?_, hworking.trans hpaved.workingDir, ⟨h.nul_notMem, ?_, ?_, ?_⟩, fun e => ?_⟩
  · exact (andThen_run (change_run hmake)).trans
      ((andThen_run (change_run hwrite)).trans (change_run hrename))
  · rw [hplace']
    intro k bs
    rw [hdirs' k]
    exact nofun
  · rw [hplace']
    intro n
    rw [hnode, hbelow]
    split
    · exact nofun
    · split
      · exact nofun
      · exact h.files n
  · rw [hplace']
    exact fun n _ => open_concat hdirs' n
  · rw [held?, held?, hplace', hnode, hbelow, if_neg (entryName_ne_draftName e d)]
    by_cases hsame : entryName e = entryName d
    · rw [if_pos hsame, if_pos hsame]
    · rw [if_neg hsame, if_neg hsame]

end UnitCheck.Check.Cache
