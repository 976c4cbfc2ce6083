import UnitCheck.Text.Path
import Mathlib.Data.List.Basic

/-!
# Parts of paths

Cleaning a path leaves its parts `Settled`: no empty part, no single dot, and double dots only where
there is nothing to go up from. Settled parts are read off the text that is made of them
(`Path.parts_ofParts`), so that a name put behind a path adds one part at its end
(`Path.parts_absolute_concat`) and names below one directory can be told apart by their last part.
-/

namespace UnitCheck

open List

/-! ## Texts between slashes -/

namespace Text

variable {b : UInt8} {t : Text}

theorem splitOn_go_ne_nil (b : UInt8) (xs : List UInt8) : splitOn.go b xs ≠ [] := by
  cases xs with
  | nil => exact cons_ne_nil _ _
  | cons x xs =>
    unfold splitOn.go
    split
    · exact cons_ne_nil _ _
    · split <;> exact cons_ne_nil _ _

theorem splitOn_go_append (b : UInt8) (xs ys : List UInt8) :
    splitOn.go b (xs ++ b :: ys) = splitOn.go b xs ++ splitOn.go b ys := by
  induction xs with
  | nil => simp [splitOn.go]
  | cons x xs ih =>
    simp only [cons_append, splitOn.go, ih]
    split
    · rfl
    · cases hgo : splitOn.go b xs with
      | nil => exact absurd hgo (splitOn_go_ne_nil b xs)
      | cons p ps => rfl

theorem splitOn_append (b : UInt8) (s t : Text) :
    (s ++ ofByte b ++ t).splitOn b = s.splitOn b ++ t.splitOn b := by
  simp only [splitOn, bytes_append, ofByte, append_assoc, singleton_append,
    splitOn_go_append, map_append]

theorem splitOn_of_notMem (h : b ∉ t.bytes) : t.splitOn b = [t] := by
  have hgo (xs : List UInt8) (hxs : b ∉ xs) : splitOn.go b xs = [xs] := by
    induction xs with
    | nil => rfl
    | cons x xs ih =>
      have hne : x ≠ b := fun heq => hxs (heq ▸ mem_cons_self)
      rw [splitOn.go, if_neg hne, ih fun hmem => hxs (mem_cons_of_mem x hmem)]
  rw [splitOn, hgo t.bytes h]
  rfl

variable {x : UInt8}

theorem mem_of_mem_splitOn {p : Text} (hp : p ∈ t.splitOn b) (hx : x ∈ p.bytes) :
    x ∈ t.bytes ∧ x ≠ b := by
  have hgo (xs : List UInt8) : ∀ ys ∈ splitOn.go b xs, ∀ x ∈ ys, x ∈ xs ∧ x ≠ b := by
    induction xs with
    | nil =>
      intro ys hys x hx
      rw [splitOn.go, mem_singleton] at hys
      subst hys
      cases hx
    | cons y xs ih =>
      have hrest {ys : List UInt8} (hys : ys ∈ splitOn.go b xs) {x : UInt8} (hx : x ∈ ys) :
          x ∈ y :: xs ∧ x ≠ b :=
        ⟨mem_cons_of_mem y (ih ys hys x hx).1, (ih ys hys x hx).2⟩
      intro ys hys x hx
      rw [splitOn.go] at hys
      split at hys
      · rcases mem_cons.1 hys with rfl | hys
        · cases hx
        · exact hrest hys hx
      next hne =>
        cases hgo : splitOn.go b xs with
        | nil => exact absurd hgo (splitOn_go_ne_nil b xs)
        | cons p ps =>
          rw [hgo] at hys hrest
          rcases mem_cons.1 hys with rfl | hys
          · rcases mem_cons.1 hx with rfl | hx
            · exact ⟨mem_cons_self, hne⟩
            · exact hrest mem_cons_self hx
          · exact hrest (mem_cons_of_mem p hys) hx
  obtain ⟨ys, hys, rfl⟩ := mem_map.1 hp
  exact hgo t.bytes ys hys x hx

theorem join_cons_cons (sep s t : Text) (ts : List Text) :
    join sep (s :: t :: ts) = s ++ sep ++ join sep (t :: ts) := by
  refine congrArg mk ?_
  simp [join, concat]

theorem join_singleton (sep t : Text) : join sep [t] = t := by
  simp [join, concat]

theorem empty_append (t : Text) : empty ++ t = t := rfl

theorem append_assoc (s t u : Text) : s ++ t ++ u = s ++ (t ++ u) :=
  congrArg mk (List.append_assoc s.bytes t.bytes u.bytes)

/-- The last of several joined texts stands at the end. -/
theorem join_concat (sep : Text) (ts : List Text) (t : Text) :
    ∃ front : Text, join sep (ts ++ [t]) = front ++ t := by
  induction ts with
  | nil => exact ⟨.empty, by rw [nil_append, join_singleton, empty_append]⟩
  | cons s ts ih =>
    obtain ⟨front, hfront⟩ := ih
    cases hts : ts ++ [t] with
    | nil => exact absurd hts (by simp)
    | cons u us =>
      rw [hts] at hfront
      refine ⟨s ++ sep ++ front, ?_⟩
      rw [cons_append, hts, join_cons_cons, hfront, append_assoc (s ++ sep)]

theorem mem_join {sep : Text} {ts : List Text} (hx : x ∈ (join sep ts).bytes) :
    x ∈ sep.bytes ∨ ∃ t ∈ ts, x ∈ t.bytes := by
  induction ts with
  | nil => cases hx
  | cons s ts ih =>
    cases ts with
    | nil =>
      rw [join_singleton] at hx
      exact .inr ⟨s, mem_cons_self, hx⟩
    | cons t ts =>
      rw [join_cons_cons, bytes_append, bytes_append, mem_append, mem_append] at hx
      rcases hx with (hx | hx) | hx
      · exact .inr ⟨s, mem_cons_self, hx⟩
      · exact .inl hx
      · rcases ih hx with hsep | ⟨u, hu, hx⟩
        · exact .inl hsep
        · exact .inr ⟨u, mem_cons_of_mem s hu, hx⟩

end Text

/-! ## Settled parts -/

namespace Path

/-- A name that stands for itself as a part of a path. -/
structure IsName (n : Text) : Prop where
  isEmpty : n.isEmpty = false
  ne_dot : n ≠ "."
  ne_dots : n ≠ ".."
  slash_notMem : slash ∉ n.bytes

variable {x : UInt8} {p q : Text}

/-- A byte other than a dot tells a name from the two that lead elsewhere. -/
theorem isName_of_mem {n : Text} (hslash : slash ∉ n.bytes) (hx : x ∈ n.bytes)
    (hdot : x ≠ 46) : IsName n where
  isEmpty := isEmpty_eq_false_iff_exists_mem.2 ⟨x, hx⟩
  ne_dot := by
    rintro rfl
    have hdots : ∀ y ∈ (Text.ofString ".").bytes, y = 46 := by decide +kernel
    exact hdot (hdots x hx)
  ne_dots := by
    rintro rfl
    have hdots : ∀ y ∈ (Text.ofString "..").bytes, y = 46 := by decide +kernel
    exact hdot (hdots x hx)
  slash_notMem := hslash

/-- Parts after cleaning, the last one first. -/
inductive Settled (rooted : Bool) : List Text → Prop
  | root : Settled rooted []
  /-- Going up from a place that is not known. -/
  | up {ps : List Text} : rooted = false → (∀ p ∈ ps, p = "..") → Settled rooted (".." :: ps)
  | name {n : Text} {ps : List Text} : IsName n → Settled rooted ps → Settled rooted (n :: ps)

variable {rooted : Bool} {n : Text} {out ps : List Text}

theorem Settled.part (h : Settled rooted ps) (hp : p ∈ ps) :
    p.isEmpty = false ∧ slash ∉ p.bytes := by
  have hdots : (Text.ofString "..").isEmpty = false ∧ slash ∉ (Text.ofString "..").bytes := by
    decide +kernel
  induction h with
  | root => cases hp
  | up _ hups =>
    rcases mem_cons.1 hp with rfl | hp
    · exact hdots
    · rw [hups p hp]
      exact hdots
  | name hn _ ih =>
    rcases mem_cons.1 hp with rfl | hp
    · exact ⟨hn.isEmpty, hn.slash_notMem⟩
    · exact ih hp

theorem resolveParts_append (rooted : Bool) (out ps qs : List Text) :
    resolveParts rooted out (ps ++ qs) =
      resolveParts rooted (resolveParts rooted out ps).reverse qs := by
  induction ps generalizing out with
  | nil => rw [nil_append, resolveParts, reverse_reverse]
  | cons p ps ih =>
    simp only [cons_append, resolveParts]
    split
    · exact ih out
    · split
      · cases out with
        | nil => exact ih _
        | cons q out =>
          dsimp only
          split
          · exact ih _
          · exact ih _
      · exact ih _

theorem resolveParts_name (rooted : Bool) (hn : IsName n) (out : List Text) :
    resolveParts rooted out [n] = out.reverse ++ [n] := by
  have hdot : (n == .ofString ".") = false := beq_eq_false_iff_ne.2 hn.ne_dot
  have hdots : (n == .ofString "..") = false := beq_eq_false_iff_ne.2 hn.ne_dots
  simp [resolveParts, hn.isEmpty, hdot, hdots]

theorem settled_resolveParts (hout : Settled rooted out) (hps : ∀ p ∈ ps, slash ∉ p.bytes) :
    Settled rooted (resolveParts rooted out ps).reverse := by
  induction ps generalizing out with
  | nil =>
    rw [resolveParts, reverse_reverse]
    exact hout
  | cons p ps ih =>
    have hrest : ∀ q ∈ ps, slash ∉ q.bytes := fun q hq => hps q (mem_cons_of_mem p hq)
    unfold resolveParts
    split
    · exact ih hout hrest
    next hskip =>
      rw [Bool.not_eq_true, Bool.or_eq_false_iff] at hskip
      split
      next hup =>
        have hdots : p = .ofString ".." := eq_of_beq hup
        cases hout with
        | root =>
          cases rooted with
          | true => exact ih .root hrest
          | false =>
            rw [hdots]
            exact ih (.up rfl fun q hq => (nomatch hq)) hrest
        | @up qs hrooted hups =>
          rw [hdots]
          refine ih (.up hrooted fun q hq => ?_) hrest
          rcases mem_cons.1 hq with rfl | hq
          · rfl
          · exact hups q hq
        | @name q qs hq hqs =>
          dsimp only
          rw [if_neg (fun heq => hq.ne_dots (eq_of_beq heq))]
          exact ih hqs hrest
      next hup =>
        refine ih (.name ⟨hskip.1, ?_, ?_, hps p mem_cons_self⟩ hout) hrest
        · exact beq_eq_false_iff_ne.1 hskip.2
        · exact fun heq => hup (heq ▸ beq_self_eq_true _)

/-- Nothing is left out where every part goes up from a place that is not known. -/
theorem resolveParts_ups (hout : ∀ p ∈ out, p = "..") (hps : ∀ p ∈ ps, p = "..") :
    resolveParts false out ps = out.reverse ++ ps := by
  induction ps generalizing out with
  | nil => rw [resolveParts, append_nil]
  | cons p ps ih =>
    obtain rfl : p = ".." := hps p mem_cons_self
    have hnext : resolveParts false (.ofString ".." :: out) ps = _ := ih
      (fun q hq => (mem_cons.1 hq).elim id (hout q)) fun q hq => hps q (mem_cons_of_mem _ hq)
    unfold resolveParts
    rw [reverse_cons, append_assoc] at hnext
    cases out with
    | nil => exact hnext
    | cons q out =>
      dsimp only
      rw [if_pos (beq_iff_eq.2 (hout q mem_cons_self))]
      exact hnext

theorem Settled.resolveParts_eq (h : Settled rooted out) :
    resolveParts rooted [] out.reverse = out.reverse := by
  induction h with
  | root => rfl
  | @up qs hrooted hups =>
    rw [hrooted, resolveParts_ups (fun p hp => absurd hp not_mem_nil), reverse_nil, nil_append]
    intro p hp
    exact (mem_cons.1 (mem_reverse.1 hp)).elim id (hups p)
  | @name m qs hm _ ih =>
    rw [reverse_cons, resolveParts_append, ih, reverse_reverse, resolveParts_name rooted hm]

theorem settled_parts (p : Text) : Settled (isRooted p) (parts p).reverse :=
  settled_resolveParts .root fun _ hq hslash => (Text.mem_of_mem_splitOn hq hslash).2 rfl

/-! ## Text and parts -/

theorem splitOn_join (hne : ps ≠ []) (h : ∀ p ∈ ps, slash ∉ p.bytes) :
    (Text.join "/" ps).splitOn slash = ps := by
  have hsep : Text.ofString "/" = .ofByte slash := by decide +kernel
  induction ps with
  | nil => exact absurd rfl hne
  | cons p ps ih =>
    have hp := Text.splitOn_of_notMem (h p mem_cons_self)
    cases ps with
    | nil => rw [Text.join_singleton, hp]
    | cons q ps =>
      have hrest := ih (cons_ne_nil q ps) fun r hr => h r (mem_cons_of_mem p hr)
      rw [Text.join_cons_cons, hsep, Text.splitOn_append, hp, ← hsep, hrest]
      rfl

section

variable (h : Settled rooted ps.reverse)
include h

theorem Settled.splitOn_join (hne : ps ≠ []) :
    (Text.join "/" ps).splitOn slash = ps :=
  Path.splitOn_join hne fun _ hp => (h.part (mem_reverse.2 hp)).2

theorem Settled.isRooted_join : isRooted (Text.join "/" ps) = false := by
  cases ps with
  | nil => rfl
  | cons p ps =>
    obtain ⟨hne, hslash⟩ := h.part (mem_reverse.2 mem_cons_self)
    cases hbytes : p.bytes with
    | nil => simp [Text.isEmpty, hbytes] at hne
    | cons x xs =>
      have hx : x ≠ slash := fun heq => hslash (by rw [hbytes, heq]; exact mem_cons_self)
      have hhead : (Text.join "/" (p :: ps)).bytes.head? = some x := by
        cases ps with
        | nil => rw [Text.join_singleton, hbytes, List.head?_cons]
        | cons q ps => simp [Text.join_cons_cons, hbytes]
      simpa [isRooted, hhead] using hx

theorem isRooted_ofParts : isRooted (ofParts rooted ps) = rooted := by
  unfold ofParts
  cases rooted with
  | true => rfl
  | false =>
    rw [if_neg Bool.false_ne_true]
    split
    · decide +kernel
    · exact h.isRooted_join

theorem parts_ofParts : parts (ofParts rooted ps) = ps := by
  have heq : resolveParts rooted [] ps = ps := by simpa using h.resolveParts_eq
  unfold parts
  rw [isRooted_ofParts h]
  by_cases hne : ps = []
  · subst hne
    cases rooted <;> decide +kernel
  · have hsplit := h.splitOn_join hne
    unfold ofParts
    cases rooted with
    | true =>
      have hroot (t : Text) : (.ofString "/" ++ t).splitOn slash = .empty :: t.splitOn slash :=
        Text.splitOn_append slash .empty t
      rw [if_pos rfl, hroot, hsplit]
      exact heq
    | false =>
      rw [if_neg Bool.false_ne_true, if_neg (by simpa using hne), hsplit]
      exact heq

end

theorem parts_clean (p : Text) : parts (clean p) = parts p := parts_ofParts (settled_parts p)

/-! ## A name behind a path -/

theorem Settled.concat (h : Settled rooted ps.reverse) (hn : IsName n) :
    Settled rooted (ps ++ [n]).reverse := by
  rw [reverse_append]
  exact .name hn h

theorem join_pair (hp : p.isEmpty = false) (hq : q.isEmpty = false) :
    join [p, q] = clean (p ++ "/" ++ q) := by
  simp only [join, filter_cons, hp, hq, Bool.not_false, if_true, filter_nil]
  rw [Text.join_cons_cons, Text.join_singleton]

theorem join_empty (hq : q.isEmpty = false) : join [.empty, q] = clean q := by
  have hfilter : [.empty, q].filter (!·.isEmpty) = [q] := by
    rw [filter_cons_of_neg (by decide), filter_cons_of_pos (by simp [hq]), filter_nil]
  simp only [join, hfilter, Text.join_singleton]

/-- Parts behind a path are resolved from where it leads to. -/
theorem parts_append (hp : p.isEmpty = false) (q : Text) :
    isRooted (p ++ "/" ++ q) = isRooted p ∧
      parts (p ++ "/" ++ q) = resolveParts (isRooted p) (parts p).reverse (q.splitOn slash) := by
  have hsep : Text.ofString "/" = .ofByte slash := by decide +kernel
  have hrooted : isRooted (p ++ "/" ++ q) = isRooted p := by
    cases hbytes : p.bytes with
    | nil => simp [Text.isEmpty, hbytes] at hp
    | cons x xs => simp [isRooted, hbytes]
  refine ⟨hrooted, ?_⟩
  unfold parts
  rw [hrooted, hsep, Text.splitOn_append, resolveParts_append]

theorem join_eq_ofParts (hn : IsName n) (hq : q.isEmpty = false) :
    join [q, n] = ofParts (isRooted q) (parts q ++ [n]) := by
  obtain ⟨hrooted, hparts⟩ := parts_append hq n
  rw [join_pair hq hn.isEmpty, clean, hrooted, hparts, Text.splitOn_of_notMem hn.slash_notMem,
    resolveParts_name _ hn, reverse_reverse]

section

variable (h : Settled rooted ps.reverse) (hne : ps ≠ [])
include h hne

theorem Settled.join_ne_empty :
    (Text.join "/" ps).isEmpty = false := by
  cases ps with
  | nil => exact absurd rfl hne
  | cons p ps =>
    have hp := (h.part (mem_reverse.2 mem_cons_self)).1
    cases ps with
    | nil => rwa [Text.join_singleton]
    | cons q ps =>
      rw [Text.join_cons_cons]
      simpa [Text.isEmpty] using fun hnil => absurd hnil (by simpa [Text.isEmpty] using hp)

/-- Where settled parts lead to, seen from a working directory. -/
theorem parts_absolute (workingDir : Text) :
    parts (absolute workingDir (ofParts rooted ps)) =
      if rooted then ps else resolveParts (isRooted workingDir) (parts workingDir).reverse ps := by
  unfold absolute
  rw [isRooted_ofParts h]
  cases rooted with
  | true => rw [if_pos rfl, if_pos rfl, parts_clean, parts_ofParts h]
  | false =>
    have hp : ofParts false ps = .join "/" ps := by
      rw [ofParts, if_neg Bool.false_ne_true, if_neg (by simpa using hne)]
    have hnonempty := h.join_ne_empty hne
    rw [if_neg Bool.false_ne_true, if_neg Bool.false_ne_true, hp]
    cases hwd : workingDir.isEmpty with
    | true =>
      obtain rfl : workingDir = .empty := by
        exact congrArg Text.mk (isEmpty_iff.1 hwd)
      rw [join_empty hnonempty, parts_clean, ← hp, parts_ofParts h]
      exact (by simpa using h.resolveParts_eq : resolveParts false [] ps = ps).symm
    | false =>
      rw [join_pair hwd hnonempty, parts_clean, (parts_append hwd _).2, h.splitOn_join hne]

/-- A name adds one part, from wherever a path is seen. -/
theorem parts_absolute_concat (hn : IsName n) (workingDir : Text) :
    parts (absolute workingDir (ofParts rooted (ps ++ [n]))) =
      parts (absolute workingDir (ofParts rooted ps)) ++ [n] := by
  rw [parts_absolute h hne, parts_absolute (h.concat hn) (by simp)]
  cases rooted with
  | true => rfl
  | false =>
    rw [if_neg Bool.false_ne_true, if_neg Bool.false_ne_true, resolveParts_append,
      resolveParts_name _ hn, reverse_reverse]

end

/-! ## Bytes of paths -/

theorem mem_of_mem_resolveParts (hp : p ∈ resolveParts rooted out ps) : p ∈ out ∨ p ∈ ps := by
  induction ps generalizing out with
  | nil => exact .inl (mem_reverse.1 hp)
  | cons q ps ih =>
    have hrest {qs : List Text} (hp : p ∈ resolveParts rooted qs ps)
        (hqs : p ∈ qs → p ∈ out ∨ p ∈ q :: ps) : p ∈ out ∨ p ∈ q :: ps :=
      (ih hp).elim hqs fun hmem => .inr (mem_cons_of_mem q hmem)
    have hcons (hmem : p ∈ q :: out) : p ∈ out ∨ p ∈ q :: ps :=
      (mem_cons.1 hmem).elim (fun heq => .inr (heq ▸ mem_cons_self)) .inl
    unfold resolveParts at hp
    split at hp
    · exact hrest hp .inl
    · split at hp
      · split at hp
        · refine hrest hp fun hmem => ?_
          split at hmem
          · cases hmem
          · exact hcons hmem
        next r out =>
          split at hp
          · exact hrest hp hcons
          · exact hrest hp fun hmem => .inl (mem_cons_of_mem r hmem)
      · exact hrest hp hcons

theorem mem_of_mem_parts (hp : p ∈ parts q) (hx : x ∈ p.bytes) : x ∈ q.bytes :=
  (mem_of_mem_resolveParts hp).elim (fun hnil => absurd hnil not_mem_nil)
    fun hmem => (Text.mem_of_mem_splitOn hmem hx).1

/-- The bytes of a path with parts are those of its parts, and slashes. -/
theorem mem_ofParts (hne : ps ≠ []) (hx : x ∈ (ofParts rooted ps).bytes) :
    x = slash ∨ ∃ p ∈ ps, x ∈ p.bytes := by
  have hslash {x : UInt8} (hx : x ∈ (Text.ofString "/").bytes) : x = slash := by
    have hbytes : (Text.ofString "/").bytes = [slash] := by decide +kernel
    rwa [hbytes, mem_singleton] at hx
  unfold ofParts at hx
  split at hx
  · rcases mem_append.1 hx with hx | hx
    · exact .inl (hslash hx)
    · exact (Text.mem_join hx).imp_left hslash
  · rw [if_neg (by simpa using hne)] at hx
    exact (Text.mem_join hx).imp_left hslash

theorem ofParts_concat (rooted : Bool) (ps : List Text) (n : Text) :
    ∃ front : Text, ofParts rooted (ps ++ [n]) = front ++ n := by
  obtain ⟨front, hfront⟩ := Text.join_concat "/" ps n
  unfold ofParts
  split
  · exact ⟨"/" ++ front, by rw [hfront, Text.append_assoc]⟩
  · exact ⟨front, by rw [if_neg (by simp), hfront]⟩

theorem IsName.endsWith_slash (hn : IsName n) (front : Text) :
    (front ++ n).endsWith "/" = false := by
  have hbytes : (Text.ofString "/").bytes = [slash] := by decide +kernel
  have hne : n.bytes ≠ [] := by simpa [Text.isEmpty] using hn.isEmpty
  rw [Text.endsWith, hbytes, ← Bool.not_eq_true, isSuffixOf_iff_suffix, Text.bytes_append]
  intro hsuffix
  have hlast : (front.bytes ++ n.bytes).getLast? = some slash := by
    obtain ⟨xs, hxs⟩ := hsuffix
    rw [← hxs, List.getLast?_concat]
  rw [List.getLast?_append_of_ne_nil front.bytes hne] at hlast
  exact hn.slash_notMem (mem_of_getLast? hlast)

end Path

end UnitCheck
