import UnitCheck.Proofs.Lowering.Parts
import UnitCheck.Proofs.Resolution.Known
import UnitCheck.Proofs.Typing.Regular

/-!
# Names that lowering can rely on

If every name was found, a name that is used stands for a site of the program, and a name of a type
for a type that lowered code can have (`Front.known`). Types that are written with such names are
solid (`Spells.closed`). Without this assumption they may be the error type, but still have no
variables and no untyped parts.
-/

namespace UnitCheck

namespace Resolution

open Lowering (identDecl typeDecl declAtom)

/-- A name leads to one of the sites, and a name of a type to a type. -/
def Mention.Known (c : Lowering.Context) (sites : List Site) : Mention → Prop
  | .value n | .callee _ n => ∃ x ∈ sites, declAt c.tree x = some (identDecl c n) ∧
      ∃ d, c.decls.get? (identDecl c n) = some d ∧ d.kind = x.kind
  | .type n => declAtom c (typeDecl c n) ≠ .plain .error

end Resolution

namespace Lowering

open Code Syntax Resolution

variable {c : Context} {clean : Prop}

/-! ## The types of declarations -/

theorem isUntyped_declAtom (c : Context) (d : DeclId) : (declAtom c d).kind.isUntyped = false := by
  have hnames : ∀ e ∈ Builtin.byName, (builtinAtom e.2).kind.isUntyped = false := by decide
  have herror : (builtinAtom Builtin.error).kind.isUntyped = false := by decide
  unfold declAtom
  split
  · rfl
  split
  · rfl
  split
  · unfold Builtin.ofName?
    cases h : Builtin.byName.find? _ with
    | none => exact herror
    | some e => exact hnames e (List.mem_of_find?_eq_some h)
  · rfl

theorem builtinAtom_prelude : ∀ a ∈ Scope.Table.preludeNames,
    (Text.ofString a).composed.isEmpty = false ∧
      builtinAtom ((Builtin.ofName? (Text.ofString a).composed).getD Builtin.error) ≠
        .plain .error := by
  decide

variable {d : DeclId} {x : Decl} {i : TypeId}

theorem declAtom_of_site (hx : c.decls.get? d = some x)
    (htag : x.tag = (.type, none)) : declAtom c d ≠ .plain .error := by
  obtain ⟨hkind, hname⟩ := Prod.mk.inj htag
  have hbuiltin : x.builtin = false := by
    by_contra h
    rw [Bool.not_eq_false] at h
    rw [if_pos h] at hname
    cases hname
  rw [declAtom, hx]
  simp [hkind, hbuiltin]

theorem declAtom_of_builtin {i : NameId} {a : String}
    (hx : c.decls.get? d = some x) (htag : x.tag = (.type, some i))
    (ha : a ∈ Scope.Table.preludeNames)
    (hname : c.tree.names.lookup? i = some (Text.ofString a).composed) :
    declAtom c d ≠ .plain .error := by
  obtain ⟨hempty, hne⟩ := builtinAtom_prelude a ha
  obtain ⟨hkind, htag⟩ := Prod.mk.inj htag
  obtain ⟨hbuiltin, rfl⟩ : x.builtin = true ∧ x.name = i := by
    split at htag
    · exact ⟨‹_›, Option.some.inj htag⟩
    · cases htag
  have htext : c.name x.name = (Text.ofString a).composed := by
    rw [Context.name, NameTable.display, hname]
    simp [hempty]
  rw [declAtom, hx]
  simpa [hkind, hbuiltin, htext] using hne

/-! ## The names of a program -/

variable {tree : Tree} {r : Resolved} {s : State}

theorem exists_outcome (hwf : WellFormed tree) (h : resolve tree = .ok r) :
    ∃ t, Outcome tree t ∧ r = ⟨{ t.tree with names := t.table.names }, t.table, t.impls,
      t.table.faults.toList⟩ := by
  obtain ⟨_, t, hrun, hout⟩ := (freshTable_initial tree).gives_resolveProgram hwf
  rw [resolve, hrun] at h
  exact ⟨t, hout, (Except.ok.inj h).symm⟩

theorem Front.nodup_numbers (h : Front tree r s) (hwf : WellFormed tree) :
    ((outline tree).sites.map (declAt r.tree)).Nodup := by
  obtain ⟨t, hout, rfl⟩ := exists_outcome hwf h.resolved
  rw [funext (declAt_names t.tree t.table.names), hout.numbered]
  exact (List.nodup_range' ..).map fun _ _ h => by cases h; rfl

theorem identDecl_of_noteAt {n : ExprNode} {i : DeclId}
    (h : noteAt c.tree (.ident n.record) = some [i]) : identDecl c n = i := by
  obtain ⟨x, hx, hi⟩ := Option.map_eq_some_iff.1 h
  cases hi
  rw [identDecl, hx]
  rfl

theorem typeDecl_of_noteAt {n : TypeNode} {i : DeclId} (h : noteAt c.tree (.type n.id) = some [i]) :
    typeDecl c n = i := by
  obtain ⟨x, hx, hi⟩ := Option.map_eq_some_iff.1 h
  cases hi
  rw [typeDecl, hx]
  rfl

/-- Without a fault of resolution every name is known. -/
theorem Front.known (h : Front tree r s) (hwf : WellFormed tree) (hfaults : r.faults = [])
    {u : Resolution.Use} (hu : u ∈ uses tree) :
    u.mention.Known ⟨r.tree, r.table.decls⟩ (outline tree).sites := by
  obtain ⟨t, hout, rfl⟩ := exists_outcome hwf h.resolved
  let c : Context := ⟨{ t.tree with names := t.table.names }, t.table.decls⟩
  have hfound : t.table.unfound = [] := by
    rw [Scope.Table.unfound, show t.table.faults.toList = [] from hfaults]
    rfl
  obtain ⟨x, i, hx, hi, hnote⟩ := hout.leads hfound hu
  obtain ⟨hsite, htype⟩ := site_of_use hu hx
  -- a name of a value leads to a site
  have hvalue (n : ExprNode) (hplace : u.mention.place = .ident n.record)
      (hne : ∀ n, u.mention ≠ .type n) : Mention.Known c (outline tree).sites (.value n) := by
    have hmem := hsite.resolve_right (by
      rintro ⟨⟨n, hn⟩, -⟩
      exact hne n hn)
    rw [hplace] at hnote
    rw [Mention.Known, identDecl_of_noteAt (c := c) hnote]
    obtain ⟨_, d, hi', hd, htag⟩ := hout.tag_of_site hmem
    cases hi.symm.trans hi'
    have hsame : declAt c.tree x = declAt t.tree x := by cases x <;> rfl
    exact ⟨x, hmem, hsame.trans hi, d, hd, (Prod.mk.inj htag).1⟩
  cases hm : u.mention with
  | value n | callee _ n => exact hvalue n (by rw [hm]; rfl) (by rw [hm]; rintro _ ⟨⟩)
  | type n =>
    rw [hm] at hnote
    show declAtom c (typeDecl c n) ≠ _
    rw [typeDecl_of_noteAt (c := c) hnote]
    rcases hsite with hmem | ⟨-, k, hk, rfl⟩
    · obtain ⟨_, d, hi', hd, htag⟩ := hout.tag_of_site hmem
      cases hi.symm.trans hi'
      rw [htype n hm] at htag
      exact declAtom_of_site hd htag
    · cases hi
      obtain ⟨d, name, hd, htag, hname⟩ := hout.tag_of_builtin hk
      exact declAtom_of_builtin hd htag (List.getElem_mem hk) hname

/-! ## Types that are written -/

variable {T : TypeTable} {sites : List Site}

/-- Every name that is used is known. -/
def Knows (c : Context) (sites : List Site) (us : List Resolution.Use) : Prop :=
  ∀ u ∈ us, u.mention.Known c sites

theorem Knows.mono {us us' : List Resolution.Use} (h : Knows c sites us) (hsub : us' ⊆ us) :
    Knows c sites us' :=
  fun u hu => h u (hsub hu)

theorem closed_of_atom {a : Atom} (h : T.view i = .atom a)
    (htyped : a.kind.isUntyped = false) (herror : clean → a ≠ .plain .error) :
    T.Closed clean i := by
  have hsolid : (TypeTerm.atom a).isSolid False := .atom htyped nofun
  refine ⟨.atom h, .atom a, .atom h, .atom ⟨hsolid.typed, nofun, fun hclean ha => ?_⟩⟩
  cases ha
  exact herror hclean rfl

theorem closed_of_wrap {e : TypeId} {w : Wrapper} (h : T.view i = .wrap w e)
    (he : T.Closed clean e) : T.Closed clean i := by
  obtain ⟨hover, u, hu, hsolid⟩ := he
  exact ⟨.wrap h hover, .wrap w u, .wrap h hu, .wrap hsolid⟩

theorem Spells.closed : ∀ {x : TypeExpr} {i : TypeId}, Spells c T x i → x.isComplete = true →
    (clean → ∃ env done, Knows c sites (usesType env done x)) → T.Closed clean i
  | .absent _, _, _, hx, _ | .lost, _, _, hx, _ | .unknown _ _, _, _, hx, _ => by cases hx
  | .name n name, i, h, _, hknown => by
    refine closed_of_atom h (isUntyped_declAtom c _) fun hclean => ?_
    obtain ⟨env, done, hknown⟩ := hknown hclean
    exact hknown _ (List.mem_singleton_self _)
  | .array .., _, ⟨_, hview, helem⟩, hx, hknown | .ref .., _, ⟨_, hview, helem⟩, hx, hknown
  | .pointer _ _, _, ⟨_, hview, helem⟩, hx, hknown
  | .optional _ _, _, ⟨_, hview, helem⟩, hx, hknown =>
    closed_of_wrap hview (Spells.closed helem hx hknown)

theorem Spells.closed_of_isValid {x : TypeExpr} (h : Spells c T x i)
    (hx : (x.isMissing || x.isComplete) = true)
    (hknown : clean → ∃ env done, Knows c sites (usesType env done x)) (hvalid : i.isValid = true) :
    T.Closed clean i := by
  rcases Bool.or_eq_true_iff.1 hx with hx | hx
  · cases x with
    | absent =>
      rw [show i = 0 from h] at hvalid
      cases hvalid
    | _ => cases hx
  · exact h.closed hx hknown

end Lowering

end UnitCheck
