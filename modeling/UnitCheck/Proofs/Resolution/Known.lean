import UnitCheck.Proofs.Resolution.Outcome

/-!
# Where names lead

If names were resolved without a fault, every name in the program leads to a declaration
(`Outcome.leads`): the one of a site of the program, or a built-in type. A name of a type leads to a
type.

The argument is that a use looks only into scopes around it, and that those bind nothing but sites
of the program and as types nothing but types (`Traced`).
-/

namespace UnitCheck.Resolution

open List Syntax Option

/-! ## The sites of uses -/

theorem length_internAll (names : NameTable) (as : List String) :
    (internAll names as).length = as.length := by
  induction as generalizing names with
  | nil => rfl
  | cons a as ih => rw [internAll, length_cons, length_cons, ih]

theorem mem_of_latest?_eq_some {name : NameId} {bs : List Binder} {x : Site}
    (h : latest? name bs = some x) : ∃ b ∈ bs, b.2 = x := by
  obtain ⟨b, hb, rfl⟩ := mem_map.1 (mem_of_getLast? h)
  exact ⟨b, (mem_filter.1 hb).1, rfl⟩

variable {t : Tree} {s : State} {u : Use} {x : Site}

theorem frame_of_use (hu : u ∈ uses t) {f : Frame} (hf : f ∈ u.frames) :
    f = rootFrame t ∨ ∃ y ∈ (outline t).scopes, y.2 = f :=
  ((traced_program t).frames u hu f hf).imp_left mem_singleton.1

theorem site_of_use (hu : u ∈ uses t) (hx : u.site? = some x) :
    (x ∈ (outline t).sites ∨ (∃ n, u.mention = .type n) ∧
      ∃ k, k < Scope.Table.preludeNames.length ∧ x = .builtin k) ∧
      ∀ n, u.mention = .type n → x.kind = .type := by
  obtain ⟨f, hf, hlatest⟩ := exists_of_findSome?_eq_some hx
  obtain ⟨b, hb, rfl⟩ := mem_of_latest?_eq_some hlatest
  have hbound : (b ∈ f.types ∧ ∃ n, u.mention = .type n) ∨
      b ∈ f.values ∧ ∀ n, u.mention ≠ .type n := by
    unfold Use.visible at hb
    split at hb
    · exact .inl ⟨hb, _, ‹_›⟩
    · rename_i hvalue
      exact .inr ⟨(mem_filter.1 hb).1, hvalue⟩
  have hroot : ∀ b ∈ builtinTypes t.names,
      b.2.kind = .type ∧ ∃ k, k < Scope.Table.preludeNames.length ∧ b.2 = .builtin k := by
    intro b hb
    obtain ⟨⟨i, k⟩, hk, rfl⟩ := mem_map.1 hb
    have hlt := (List.getElem?_eq_some_iff.1 (mem_zipIdx_iff_getElem?.1 hk)).1
    rw [length_internAll] at hlt
    exact ⟨rfl, k, hlt, rfl⟩
  have htraced := traced_program t
  rcases frame_of_use hu hf with rfl | ⟨y, hy, rfl⟩
  · rcases hbound with ⟨hb, htype⟩ | ⟨hb, hvalue⟩
    · rcases mem_append.1 hb with hb | hb
      · exact ⟨.inr ⟨htype, (hroot b hb).2⟩, fun _ _ => (hroot b hb).1⟩
      · exact ⟨.inl (Outline.types_mem _ b hb), fun _ _ => htraced.types b hb⟩
    · exact ⟨.inl (Outline.values_mem _ b hb), fun n hn => absurd hn (hvalue n)⟩
  · obtain ⟨-, -, hvalues, htypes⟩ := Outline.scopes_mem _ y hy
    rcases hbound with ⟨hb, -⟩ | ⟨hb, hvalue⟩
    · exact ⟨.inl (htypes b hb), fun _ _ => htraced.scopes y hy b hb⟩
    · exact ⟨.inl (hvalues b hb), fun n hn => absurd hn (hvalue n)⟩

/-! ## The declarations of sites -/

variable {k : Nat} {i : DeclId}

theorem exists_of_tags {decls : Decls} {tag : DeclKind × Option NameId}
    (h : decls.tags[k]? = some tag) : ∃ d, decls.get? ⟨k + 1⟩ = some d ∧ d.tag = tag := by
  rw [Decls.tags, List.getElem?_map, Array.getElem?_toList] at h
  exact map_eq_some_iff.1 h

namespace Outcome

theorem tag_of_site (h : Outcome t s) (hx : x ∈ (outline t).sites) :
    ∃ i d, declAt s.tree x = some i ∧ s.table.decls.get? i = some d ∧ d.tag = (x.kind, none) := by
  obtain ⟨k, hk, rfl⟩ := mem_iff_getElem.1 hx
  have hnumber := congrArg (·[k]?) h.numbered
  have htag := congrArg (·[Scope.Table.preludeNames.length + k]?) h.tags
  simp only [List.getElem?_map, List.getElem?_eq_getElem hk, map_some, List.getElem?_range' hk,
    some.injEq] at hnumber
  rw [List.getElem?_append_right (by rw [length_map, length_internAll]; omega), length_map,
    length_internAll, Nat.add_sub_cancel_left, List.getElem?_map,
      List.getElem?_eq_getElem hk] at htag
  obtain ⟨d, hd, hkind⟩ := exists_of_tags htag
  refine ⟨_, d, hnumber, ?_, hkind⟩
  rw [← hd]
  congr 2
  omega

theorem tag_of_builtin (h : Outcome t s) {k : Nat} (hk : k < Scope.Table.preludeNames.length) :
    ∃ d i, s.table.decls.get? ⟨k + 1⟩ = some d ∧ d.tag = (.type, some i) ∧
      s.table.names.lookup? i = some (Text.ofString Scope.Table.preludeNames[k]).composed := by
  have hlt : k < (internAll t.names Scope.Table.preludeNames).length := by rwa [length_internAll]
  have hi := List.getElem?_eq_getElem hlt
  have htag := congrArg (·[k]?) h.tags
  rw [List.getElem?_append_left (by rwa [length_map]), List.getElem?_map, hi] at htag
  obtain ⟨d, hd, hkind⟩ := exists_of_tags htag
  exact ⟨d, _, hd, hkind, h.names (List.getElem?_eq_getElem hk) hi⟩

theorem leads_of_site (h : Outcome t s) (hu : u ∈ uses t) (hx : u.site? = some x) :
    ∃ i, declAt s.tree x = some i ∧ noteAt s.tree u.mention.place = some [i] ∧
      (s.table.decls.get? i).isSome := by
  have hdecl := (h.recorded u hu).decl
  rw [hx] at hdecl
  obtain ⟨i, d, hi, hd⟩ : ∃ i d, declAt s.tree x = some i ∧ s.table.decls.get? i = some d := by
    rcases (site_of_use hu hx).1 with hsite | ⟨-, k, hk, rfl⟩
    · obtain ⟨i, d, hi, hd, -⟩ := h.tag_of_site hsite
      exact ⟨i, d, hi, hd⟩
    · obtain ⟨d, _, hd, -⟩ := h.tag_of_builtin hk
      exact ⟨_, d, rfl, hd⟩
  refine ⟨i, hi, hdecl.trans ?_, by rw [hd]; rfl⟩
  show (declAt s.tree x).map _ = _
  rw [hi]
  rfl

/-- If every name was found, a use has the declaration of the site that it means. -/
theorem leads (h : Outcome t s) (hfound : s.table.unfound = []) (hu : u ∈ uses t) :
    ∃ x i, u.site? = some x ∧ declAt s.tree x = some i ∧
      noteAt s.tree u.mention.place = some [i] := by
  have hsome : u.site? ≠ none := by
    rw [h.unfound, map_eq_nil_iff, filter_eq_nil_iff] at hfound
    simpa using hfound u hu
  obtain ⟨x, hx⟩ := ne_none_iff_exists'.1 hsome
  obtain ⟨i, hi, hnote, -⟩ := h.leads_of_site hu hx
  exact ⟨x, i, hx, hi, hnote⟩

end Outcome

/-! ## Annotations in range -/

private theorem eq_zero_of_member {α : Type} {f : α → DeclId} {g : α → α} {as : Option (List α)}
    (h : ((as.map fun as => as.map g).getD [])[k]?.map f = some i)
    (hf : ∀ x, f (g x) = 0) : i = 0 := by
  cases as with
  | none => cases h
  | some as =>
    rw [Option.map_some, Option.getD_some, List.getElem?_map, Option.map_map] at h
    obtain ⟨x, -, rfl⟩ := map_eq_some_iff.1 h
    exact hf x

theorem eq_zero_of_declAt (hbare : t.IsBare) (hx : ∀ k, x ≠ .builtin k)
    (h : declAt t x = some i) : i = 0 := by
  cases x with
  | builtin k => exact (hx k rfl).elim
  | var r =>
    obtain ⟨x, hx, rfl⟩ := map_eq_some_iff.1 h
    exact (congrArg VarRecord.decl (hbare.vars x (Arena.mem_of_get? hx))).symm
  | loop r =>
    obtain ⟨x, hx, rfl⟩ := map_eq_some_iff.1 h
    exact (congrArg ForRecord.decl (hbare.fors x (Arena.mem_of_get? hx))).symm
  | func r =>
    obtain ⟨x, hx, rfl⟩ := map_eq_some_iff.1 h
    exact (congrArg FuncRecord.decl (hbare.funcs x (Arena.mem_of_get? hx))).symm
  | type r =>
    obtain ⟨x, hx, rfl⟩ := map_eq_some_iff.1 h
    exact (congrArg TypeDeclRecord.decl (hbare.typeDecls x (Arena.mem_of_get? hx))).symm
  | param r k =>
    obtain ⟨f, hf, h⟩ := bind_eq_some_iff.1 h
    rw [← hbare.funcs f (Arena.mem_of_get? hf)] at h
    exact eq_zero_of_member h fun _ => rfl
  | field r k | variant r k =>
    obtain ⟨f, hf, h⟩ := bind_eq_some_iff.1 h
    rw [← hbare.typeDecls f (Arena.mem_of_get? hf)] at h
    exact eq_zero_of_member h fun _ => rfl

theorem eq_zero_of_noteAt {p : Place} {is : List DeclId} (hbare : t.IsBare)
    (h : noteAt t p = some is) : ∀ i ∈ is, i = 0 := by
  cases p with
  | ident r =>
    obtain ⟨x, hx, rfl⟩ := map_eq_some_iff.1 h
    rw [← hbare.idents x (Arena.mem_of_get? hx)]
    exact forall_mem_singleton.2 rfl
  | call r =>
    obtain ⟨x, hx, rfl⟩ := map_eq_some_iff.1 h
    rw [← hbare.calls x (Arena.mem_of_get? hx)]
    nofun
  | type i =>
    obtain ⟨x, hx, rfl⟩ := map_eq_some_iff.1 h
    rw [← hbare.types x (Arena.mem_of_get? hx)]
    exact forall_mem_singleton.2 rfl

theorem site_of_functions (hu : u ∈ uses t) (hx : x ∈ u.functions) :
    x ∈ (outline t).sites := by
  obtain ⟨f, hf, hx⟩ := mem_flatMap.1 hx
  obtain ⟨b, hb, rfl⟩ := mem_map.1 (mem_reverse.1 hx)
  have hb := (mem_filter.1 hb).1
  rcases frame_of_use hu hf with rfl | ⟨y, hy, rfl⟩
  · exact Outline.values_mem _ b hb
  · obtain ⟨-, -, hvalues, -⟩ := Outline.scopes_mem _ y hy
    exact hvalues b hb

namespace Outcome

variable {i : DeclId}

theorem decl_isSome (h : Outcome t s) (hbare : t.IsBare) (hx : ∀ k, x ≠ .builtin k)
    (hi : declAt s.tree x = some i) (hvalid : i.isValid = true) :
    (s.table.decls.get? i).isSome = true := by
  by_cases hmem : x ∈ (outline t).sites
  · obtain ⟨j, d, hj, hd, -⟩ := h.tag_of_site hmem
    cases hi.symm.trans hj
    rw [hd]
    rfl
  · rw [eq_zero_of_declAt hbare hx ((h.decl_eq x hmem).symm.trans hi)] at hvalid
    cases hvalid

theorem note_isSome (h : Outcome t s) (hbare : t.IsBare) {p : Place} {is : List DeclId}
    (hp : noteAt s.tree p = some is) (hi : i ∈ is) (hvalid : i.isValid = true) :
    (s.table.decls.get? i).isSome = true := by
  have hfresh : noteAt t p ≠ some is := fun hp => by
    rw [eq_zero_of_noteAt hbare hp i hi] at hvalid
    cases hvalid
  have hmem : p ∈ (uses t).flatMap fun u => u.mention.places := by
    by_contra hmem
    exact hfresh ((h.note_eq p hmem).symm.trans hp)
  obtain ⟨u, hu, hplace⟩ := mem_flatMap.1 hmem
  have hrec := h.recorded u hu
  have hdecl (hplace : p = u.mention.place) : (s.table.decls.get? i).isSome = true := by
    have hrecorded := hrec.decl
    rw [← hplace, hp] at hrecorded
    split at hrecorded
    next x hx =>
      obtain ⟨j, -, hj, hsome⟩ := h.leads_of_site hu hx
      rw [← hplace, hp] at hj
      cases hj
      rw [mem_singleton.1 hi]
      exact hsome
    next => exact (hfresh hrecorded.symm).elim
  cases hm : u.mention with
  | value n | type n =>
    rw [hm] at hplace
    exact hdecl (by rw [hm]; exact mem_singleton.1 hplace)
  | callee call n =>
    rw [hm] at hplace
    rcases mem_cons.1 hplace with rfl | hplace
    · exact hdecl (by rw [hm]; rfl)
    · rw [mem_singleton.1 hplace, hrec.candidates call n hm] at hp
      cases hp
      obtain ⟨x, hx, hxi⟩ := mem_filterMap.1 hi
      obtain ⟨_, d, hj, hd, -⟩ := h.tag_of_site (site_of_functions hu hx)
      cases hxi.symm.trans hj
      rw [hd]
      rfl

end Outcome

end UnitCheck.Resolution
