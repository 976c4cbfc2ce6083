import UnitCheck.Proofs.Resolution.Lexical
import UnitCheck.Proofs.Syntax.Bare
import UnitCheck.Proofs.Syntax.Complete

/-!
# Annotations of a tree

The walks talk to each other through annotation fields of records. Here these fields are read in the
words of `Lexical`: `declAt` is the declaration recorded at a site, `scopeAt` the scope recorded for
a region, `noteAt` what is recorded at a use. `none` always means that there is no such record.

`setDecl` and `setScope` write one field; all others stay as they are. A program unfolded from a
tree names only records that the tree has (`traced_program`).
-/

namespace UnitCheck

open List Option

namespace Syntax.Arena

variable {α : Type}

theorem get?_modify (a : Arena α) (i j : Nat) (f : α → α) :
    (a.modify i f).get? j = if i = j then (a.get? j).map f else a.get? j := by
  obtain ⟨rows⟩ := a
  rcases Nat.eq_zero_or_pos i with rfl | hi
  · split
    · next h => simp [← h, get?]
    · rfl
  · rcases Nat.eq_zero_or_pos j with rfl | hj
    · simp [get?]
    · cases rows with
      | none => simp [modify, get?, toArray]
      | some rows =>
        simp only [modify, get?, toArray, Nat.ne_of_gt hi, Nat.ne_of_gt hj, if_false,
          map_some, getD_some, Array.getElem?_modify]
        by_cases hij : i = j
        · subst hij
          simp
        · rw [if_neg (by omega), if_neg hij]

theorem get?_modify_of_ne {k : IdKind} {f : α → α} {a : Arena α} {r r' : Id k} (h : r ≠ r') :
    (a.modify r.index f).get? r'.index = a.get? r'.index := by
  rw [get?_modify, if_neg]
  intro hindex
  exact h (congrArg Id.mk hindex)

end Syntax.Arena

namespace Resolution

open Syntax

/-! ## Reading -/

/-- The declaration recorded at a site. Built-in types come first, in their order. -/
def declAt (t : Tree) : Site → Option DeclId
  | .builtin k => some ⟨k + 1⟩
  | .var r => (t.stmts.vars.get? r.index).map VarRecord.decl
  | .loop r => (t.exprs.fors.get? r.index).map ForRecord.decl
  | .func r => (t.stmts.funcs.get? r.index).map FuncRecord.decl
  | .param r i => (t.stmts.funcs.get? r.index).bind fun f => (f.params.getD [])[i]?.map Param.decl
  | .type r => (t.stmts.typeDecls.get? r.index).map TypeDeclRecord.decl
  | .field r i =>
    (t.stmts.typeDecls.get? r.index).bind fun d => (d.fields.getD [])[i]?.map Member.decl
  | .variant r i =>
    (t.stmts.typeDecls.get? r.index).bind fun d => (d.variants.getD [])[i]?.map Member.decl

/-- The scope recorded for a region, if any. -/
def scopeAt (t : Tree) : Region → Option (Option ScopeId)
  | .root => some (some .root)
  | .func r => (t.stmts.funcs.get? r.index).map FuncRecord.scope
  | .type r => (t.stmts.typeDecls.get? r.index).map TypeDeclRecord.scope
  | .impl r => (t.stmts.impls.get? r.index).map ImplRecord.scope
  | .block r => (t.exprs.blocks.get? r.index).map BlockRecord.scope
  | .loop r => (t.exprs.fors.get? r.index).map ForRecord.scope

/-- The declarations recorded at a use: one for a name, any number for a call. -/
def noteAt (t : Tree) : Place → Option (List DeclId)
  | .ident r => (t.exprs.idents.get? r.index).map fun x => [x.decl]
  | .call r => (t.exprs.calls.get? r.index).map fun x => x.candidates.getD []
  | .type i => (t.type? i).map fun x => [x.decl]

section Names

variable (t : Tree) (n : NameTable)

theorem declAt_names (x : Site) : declAt { t with names := n } x = declAt t x := by cases x <;> rfl

theorem scopeAt_names (r : Region) : scopeAt { t with names := n } r = scopeAt t r := by
  cases r <;> rfl

theorem noteAt_names (p : Place) : noteAt { t with names := n } p = noteAt t p := by cases p <;> rfl

end Names

/-! ## Writing -/

def setDeclAt (t : Tree) (d : DeclId) : Site → Tree
  | .builtin _ => t
  | .var r => { t with stmts.vars := t.stmts.vars.modify r.index ({ · with decl := d }) }
  | .loop r => { t with exprs.fors := t.exprs.fors.modify r.index ({ · with decl := d }) }
  | .func r => { t with stmts.funcs := t.stmts.funcs.modify r.index ({ · with decl := d }) }
  | .param r i =>
    { t with
      stmts.funcs := t.stmts.funcs.modify r.index fun f =>
        { f with params := setDecl (fun p d => { p with decl := d }) i d f.params } }
  | .type r => { t with stmts.typeDecls := t.stmts.typeDecls.modify r.index ({ · with decl := d }) }
  | .field r i =>
    { t with
      stmts.typeDecls := t.stmts.typeDecls.modify r.index fun x =>
        { x with fields := setDecl (fun m d => { m with decl := d }) i d x.fields } }
  | .variant r i =>
    { t with
      stmts.typeDecls := t.stmts.typeDecls.modify r.index fun x =>
        { x with variants := setDecl (fun m d => { m with decl := d }) i d x.variants } }

def setScopeAt (t : Tree) (i : ScopeId) : Region → Tree
  | .root => t
  | .func r => { t with stmts.funcs := t.stmts.funcs.modify r.index ({ · with scope := some i }) }
  | .type r =>
    { t with stmts.typeDecls := t.stmts.typeDecls.modify r.index ({ · with scope := some i }) }
  | .impl r => { t with stmts.impls := t.stmts.impls.modify r.index ({ · with scope := some i }) }
  | .block r =>
    { t with exprs.blocks := t.exprs.blocks.modify r.index ({ · with scope := some i }) }
  | .loop r => { t with exprs.fors := t.exprs.fors.modify r.index ({ · with scope := some i }) }

variable {α β : Type} {set : α → DeclId → α} {g : α → β} {decl : α → DeclId} {xs : Option (List α)}
  {k : Nat} {s : Site} {f : α → α} {r : Region}

private theorem map_setDecl
    (h : ∀ a d, g (set a d) = g a) (k : Nat) (d : DeclId) (xs : Option (List α)) :
    (setDecl set k d xs).map (List.map g) = xs.map (List.map g) := by
  cases xs with
  | none => rfl
  | some xs =>
    refine congrArg some (ext_getElem? fun n => ?_)
    by_cases hk : k = n <;> simp [hk, Function.comp_def, h]

theorem bare_setDeclAt (t : Tree) (d : DeclId) (x : Site) : (setDeclAt t d x).bare = t.bare := by
  cases x with
  | builtin => rfl
  | var | loop | func | type =>
    simp only [setDeclAt, Tree.bare]
    rw [Arena.map_modify fun _ => by rfl]
  | param r k =>
    simp only [setDeclAt, Tree.bare]
    rw [Arena.map_modify fun f => by
      simp only [FuncRecord.bare]
      rw [map_setDecl fun _ _ => by rfl]]
  | field r k | variant r k =>
    simp only [setDeclAt, Tree.bare]
    rw [Arena.map_modify fun x => by
      simp only [TypeDeclRecord.bare]
      rw [map_setDecl fun _ _ => by rfl]]

theorem bare_setScopeAt (t : Tree) (i : ScopeId) (r : Region) :
    (setScopeAt t i r).bare = t.bare := by
  cases r with
  | root => rfl
  | func | type | impl | block | loop =>
    simp only [setScopeAt, Tree.bare]
    rw [Arena.map_modify fun _ => by rfl]

variable {t : Tree} {d : DeclId} {i : ScopeId}

private theorem decl_setDecl_self (hset : ∀ a, decl (set a d) = d)
    (h : ((xs.getD [])[k]?.map decl).isSome) :
    ((setDecl set k d xs).getD [])[k]?.map decl = some d := by
  cases xs with
  | none => simp at h
  | some xs =>
    simp only [getD_some, isSome_map] at h
    obtain ⟨x, hx⟩ := isSome_iff_exists.1 h
    simp [setDecl, hx, hset]

private theorem decl_setDecl_of_ne {k' : Nat} (h : k ≠ k') :
    ((setDecl set k d xs).getD [])[k']?.map decl = ((xs.getD [])[k']?).map decl := by
  cases xs with
  | none => simp [setDecl]
  | some xs => simp [setDecl, h]

theorem declAt_setDeclAt_self (hs : ∀ k, s ≠ .builtin k) (h : (declAt t s).isSome) :
    declAt (setDeclAt t d s) s = some d := by
  cases s with
  | builtin k => exact absurd rfl (hs k)
  | var r | loop r | func r | type r =>
    simp only [declAt, isSome_map] at h
    obtain ⟨x, hx⟩ := isSome_iff_exists.1 h
    simp [declAt, setDeclAt, Arena.get?_modify, hx]
  | param r k | field r k | variant r k =>
    simp only [declAt] at h
    obtain ⟨x, hx⟩ := isSome_iff_exists.1 (isSome_of_isSome_bind h)
    simp only [hx] at h
    simp only [declAt, setDeclAt, Arena.get?_modify, hx]
    exact decl_setDecl_self (fun _ => rfl) h

private theorem map_get?_modify (hg : ∀ x, g (f x) = g x)
    (a : Arena α) (j k : Nat) : ((a.modify j f).get? k).map g = (a.get? k).map g := by
  rw [Arena.get?_modify]
  split
  · rw [Option.map_map]
    exact congrFun (congrArg _ (funext hg)) _
  · rfl

private theorem bind_get?_modify {g : α → Option β}
    (hg : ∀ x, g (f x) = g x) (a : Arena α) (j k : Nat) :
    ((a.modify j f).get? k).bind g = (a.get? k).bind g := by
  rw [Arena.get?_modify]
  split
  · cases a.get? k with
    | none => rfl
    | some x => exact hg x
  · rfl

theorem declAt_setDeclAt_of_ne {s' : Site} (h : s ≠ s') :
    declAt (setDeclAt t d s) s' = declAt t s' := by
  cases s <;> cases s' <;> simp only [declAt, setDeclAt]
  -- what is left are sites in one table: two fields of a record, or two sites of one form
  case func.param | type.field | type.variant | field.variant | variant.field =>
    exact bind_get?_modify (fun _ => by rfl) ..
  case param.func | field.type | variant.type => exact map_get?_modify (fun _ => by rfl) ..
  case var.var r r' | loop.loop r r' | func.func r r' | type.type r r' =>
    exact congrArg _ (Arena.get?_modify_of_ne fun hr => h (by rw [hr]))
  case param.param r k r' k' | field.field r k r' k' | variant.variant r k r' k' =>
    by_cases hr : r = r'
    · subst hr
      refine bind_get?_modify (fun x => ?_) ..
      exact decl_setDecl_of_ne fun hk => h (by rw [hk])
    · exact congrArg (bind · _) (Arena.get?_modify_of_ne hr)

theorem scopeAt_setDeclAt (s : Site) (r : Region) : scopeAt (setDeclAt t d s) r = scopeAt t r := by
  cases s <;> cases r <;> simp only [scopeAt, setDeclAt]
  all_goals exact map_get?_modify (fun _ => by rfl) ..

theorem noteAt_setDeclAt (s : Site) (p : Place) : noteAt (setDeclAt t d s) p = noteAt t p := by
  cases s <;> cases p <;> rfl

theorem scopeAt_setScopeAt_self (hr : r ≠ .root) (h : (scopeAt t r).isSome) :
    scopeAt (setScopeAt t i r) r = some (some i) := by
  cases r with
  | root => exact absurd rfl hr
  | func r | type r | impl r | block r | loop r =>
    simp only [scopeAt, isSome_map] at h
    obtain ⟨x, hx⟩ := isSome_iff_exists.1 h
    simp [scopeAt, setScopeAt, Arena.get?_modify, hx]

theorem scopeAt_setScopeAt_of_ne {r' : Region} (h : r ≠ r') :
    scopeAt (setScopeAt t i r) r' = scopeAt t r' := by
  cases r <;> cases r' <;> simp only [scopeAt, setScopeAt]
  case func.func r r' | type.type r r' | impl.impl r r' | block.block r r' | loop.loop r r' =>
    exact congrArg _ (Arena.get?_modify_of_ne fun hr => h (by rw [hr]))

theorem declAt_setScopeAt (r : Region) (s : Site) : declAt (setScopeAt t i r) s = declAt t s := by
  cases r <;> cases s <;> simp only [declAt, setScopeAt]
  case func.func | type.type | loop.loop => exact map_get?_modify (fun _ => by rfl) ..
  case func.param | type.field | type.variant => exact bind_get?_modify (fun _ => by rfl) ..

theorem noteAt_setScopeAt (r : Region) (p : Place) : noteAt (setScopeAt t i r) p = noteAt t p := by
  cases r <;> cases p <;> rfl

/-! ## The records of a program -/

/-- The tree has the records of an outline. -/
structure Outline.Backed (t : Tree) (o : Outline) : Prop where
  declared : ∀ x ∈ o.sites, (declAt t x).isSome
  marked : ∀ r ∈ o.regions, (scopeAt t r).isSome

/-- The tree has the records of uses. That of a type says that it is a name. -/
def Noted (t : Tree) (us : List Use) : Prop :=
  ∀ u ∈ us, ∀ p ∈ u.mention.places, (noteAt t p).isSome ∧
    ∀ i, p = .type i → (t.type? i).map TypeRecord.kind = some .name

/-- The names in the traits of implementations are among the uses. -/
def Heads (t : Tree) (us : List Use) (rs : List PayloadId) : Prop :=
  ∀ r ∈ rs, ∃ x env done, t.stmts.impls.get? r.index = some x ∧
    usesType env done (t.typeExpr x.trait) ⊆ us

theorem Heads.mono {us us' : List Use} {rs : List PayloadId} (h : Heads t us rs) (hus : us ⊆ us') :
    Heads t us' rs := fun r hr =>
  have ⟨x, env, done, hx, hsub⟩ := h r hr
  ⟨x, env, done, hx, List.Subset.trans hsub hus⟩

/-- A part of a program with outline `o` and uses `us` that stands in the scopes `env`: the tree has
its records, only types are bound as types, and every scope around a use is one of `env` or opened
by `o`. -/
structure Traced (t : Tree) (env : List Frame) (o : Outline) (us : List Use) : Prop
    extends o.Backed t where
  types : ∀ b ∈ o.types, b.2.kind = .type
  scopes : ∀ x ∈ o.scopes, ∀ b ∈ x.2.types, b.2.kind = .type
  noted : Noted t us
  frames : ∀ u ∈ us, ∀ f ∈ u.frames, f ∈ env ∨ ∃ x ∈ o.scopes, x.2 = f
  heads : Heads t us o.impls

namespace Traced

variable {env : List Frame} {done : List Site} {o o' : Outline} {us us' : List Use}

theorem nil : Traced t env .empty [] := ⟨⟨nofun, nofun⟩, nofun, nofun, nofun, nofun, nofun⟩

variable {name : NameId} {r : Region}

theorem one {m : Mention} (h : ∀ p ∈ m.places, (noteAt t p).isSome ∧
      ∀ i, p = .type i → (t.type? i).map TypeRecord.kind = some .name) :
    Traced t env .empty [⟨m, name, env, done⟩] := by
  refine { (nil : Traced t env .empty []) with
    noted := fun u hu p hp => ?_, frames := fun u hu f hf => ?_, heads := nofun }
  · rw [mem_singleton.1 hu] at hp
    exact h p hp
  · rw [mem_singleton.1 hu] at hf
    exact .inl hf

theorem append (h : Traced t env o us) (h' : Traced t env o' us') :
    Traced t env (o ++ o') (us ++ us') where
  declared := forall_mem_append.2 ⟨h.declared, h'.declared⟩
  marked := forall_mem_append.2 ⟨h.marked, h'.marked⟩
  types := forall_mem_append.2 ⟨h.types, h'.types⟩
  scopes := forall_mem_append.2 ⟨h.scopes, h'.scopes⟩
  noted := forall_mem_append.2 ⟨h.noted, h'.noted⟩
  frames u hu f hf := by
    obtain hu | hu := mem_append.1 hu
    · exact (h.frames u hu f hf).imp_right fun ⟨x, hx, heq⟩ => ⟨x, mem_append_left _ hx, heq⟩
    · exact (h'.frames u hu f hf).imp_right fun ⟨x, hx, heq⟩ => ⟨x, mem_append_right _ hx, heq⟩
  heads := by
    rw [Outline.impls_append]
    exact forall_mem_append.2 ⟨h.heads.mono (subset_append_left ..),
      h'.heads.mono (subset_append_right ..)⟩

theorem first (h : Traced t env .empty us) (h' : Traced t env o us') :
    Traced t env o (us ++ us') := by
  exact h.append h'

theorem behind (h : Traced t env o []) (h' : Traced t env o' us) : Traced t env (o ++ o') us :=
  h.append h'

theorem declare {x : Site} {span : Span} (h : (declAt t x).isSome) :
    Traced t env (.declare name x span) [] := by
  refine ⟨⟨fun y hy => ?_, nofun⟩, fun b hb => ?_, nofun, nofun, nofun, nofun⟩
  · rwa [mem_singleton.1 hy]
  · cases x <;> cases hb <;> first | rfl | contradiction

theorem record {r : PayloadId} (h : (scopeAt t (.block r)).isSome) :
    Traced t env (.record (.block r)) [] := by
  refine ⟨⟨nofun, fun r' hr' => ?_⟩, nofun, nofun, nofun, nofun, nofun⟩
  rwa [mem_singleton.1 hr']

theorem headed (h' : Traced t env .empty us') (hhead : Heads t us' r.impl?.toList)
    (hr : (scopeAt t r).isSome) (h : Traced t (o.frame r :: env) o us) :
    Traced t env (o.enclose r) (us' ++ us) where
  declared := h.declared
  marked := forall_mem_cons.2 ⟨hr, h.marked⟩
  types := nofun
  scopes := forall_mem_cons.2 ⟨h.types, forall_mem_map.2 h.scopes⟩
  noted := forall_mem_append.2 ⟨h'.noted, h.noted⟩
  frames u hu f hf := by
    obtain hu | hu := mem_append.1 hu
    · exact .inl ((h'.frames u hu f hf).resolve_right (by rintro ⟨_, ⟨⟩, _⟩))
    obtain hf | ⟨x, hx, rfl⟩ := h.frames u hu f hf
    · obtain rfl | hf := mem_cons.1 hf
      · exact .inr ⟨(none, o.frame r), mem_cons_self, rfl⟩
      · exact .inl hf
    · exact .inr ⟨_, mem_cons_of_mem _ (mem_map.2 ⟨x, hx, rfl⟩), rfl⟩
  heads := by
    have himpls : (o.enclose r).impls = r.impl?.toList ++ o.impls := by cases r <;> rfl
    rw [himpls]
    exact forall_mem_append.2 ⟨hhead.mono (subset_append_left ..),
      h.heads.mono (subset_append_right ..)⟩

theorem enclose (hi : r.impl? = none) (hr : (scopeAt t r).isSome)
    (h : Traced t (o.frame r :: env) o us) : Traced t env (o.enclose r) us :=
  nil.headed (by rw [hi]; nofun) hr h

/-- Members are declared if the record has so many. -/
theorem each {site : Nat → Site} {n : Nat} (h : ∀ k < n, (declAt t (site k)).isSome) {k : Nat}
    {names : List (NameId × Span)} (hn : k + names.length = n) :
    Traced t env (outlineEach site k names) [] := by
  induction names generalizing k with
  | nil => exact nil
  | cons a as ih =>
    rw [length_cons] at hn
    exact (declare (h k (by omega))).append (ih (by omega))

theorem type : (x : TypeExpr) → x.Recorded t → Traced t env .empty (usesType env done x)
  | .absent _, _ | .lost, _ => nil
  | .name n name, h => one fun p hp => by
    rw [mem_singleton.1 hp]
    obtain ⟨r, hr, hkind⟩ := map_eq_some_iff.1 h
    exact ⟨by simp [noteAt, hr], fun i hi => by cases hi; exact h⟩
  | .array _ elem _, h | .ref _ elem _, h | .pointer _ elem, h | .optional _ elem, h
  | .unknown _ elem, h => type elem h.2

theorem members {α : Type} {type : α → TypeExpr} {xs : List α} (h : ∀ x ∈ xs, (type x).Recorded t) :
    Traced t env .empty (xs.flatMap fun x => usesType env done (type x)) := by
  induction xs with
  | nil => exact nil
  | cons x xs ih =>
    obtain ⟨hx, hxs⟩ := forall_mem_cons.1 h
    exact (Traced.type _ hx).first (ih hxs)

end Traced

mutual

theorem traced_stmt {env : List Frame} {done : List Site} :
    (s : Stmt) → RecordedStmt t s → Traced t env (outlineStmt s) (usesStmt env done s)
  | .absent _, _ | .lost, _ | .bare _ _, _ => .nil
  | .var n name nameSpan type value _, h => by
    have hvar := (@traced_expr env done value h.2.2).append
      (.declare (by simpa [declAt] using h.1) :
        Traced t env (.declare name (.var n.record) nameSpan) [])
    rw [append_nil] at hvar
    exact (Traced.type type h.2.1).first hvar
  | .assign _ target value, h => (traced_expr target h.1).append (traced_expr value h.2)
  | .func n name nameSpan params result body modifier, h => by
    obtain ⟨⟨r, hr, hlength⟩, hparams, hresult, hbody⟩ := h
    rw [outlineStmt_func, usesStmt_func]
    refine .behind (.declare (by simp [declAt, hr]))
      (.first (.members hparams) (.first (.type result hresult)
      (.enclose rfl (by simp [scopeAt, hr])
        (.behind (.each (n := params.length) (fun k hk => ?_) (by simp)) ?_))))
    · simp [declAt, hr, List.getElem?_eq_getElem (hlength ▸ hk)]
    · have hother :=
        @traced_expr ((outlineInside n.record params body).frame (.func n.record) :: env) done
        body hbody
      cases body with
      | block b stmts =>
        exact .behind (.record (by simpa [scopeAt] using hbody.1)) (traced_stmts stmts hbody.2)
      | _ => exact hother
  | .typeDecl n _ name _ fields variants methods, h => by
    obtain ⟨⟨r, hr, hfields, hvariants⟩, htypes, hmethods⟩ := h
    obtain ⟨htypes, htypes'⟩ := forall_mem_append.1 htypes
    refine .behind (.declare (by simp [declAt, hr]))
      (.enclose rfl (by simp [scopeAt, hr]) (.first (.members htypes)
      (.first (.members htypes')
        (.behind (.each (n := fields.length) (fun k hk => ?_) (by simp)) (.behind
        (.each (n := variants.length) (fun k hk => ?_) (by simp))
          (traced_stmts methods hmethods))))))
    · simp [declAt, hr, List.getElem?_eq_getElem (hfields ▸ hk)]
    · simp [declAt, hr, List.getElem?_eq_getElem (hvariants ▸ hk)]
  | .impl n trait target methods, h => by
    obtain ⟨⟨r, hr, rfl, rfl, -⟩, hmethods⟩ := h
    rw [usesStmt, ← append_assoc]
    refine .headed ((Traced.type _ (recorded_typeAt ..)).first (.type _ (recorded_typeAt ..)))
      (fun _ hmem => ?_) (by simp [scopeAt, hr]) (traced_stmts methods hmethods)
    rw [mem_singleton.1 hmem]
    exact ⟨r, env, done, hr, subset_append_left ..⟩
  | .expr _ e _, h | .jump _ _ e, h => traced_expr e h

theorem traced_stmts {env : List Frame} {done : List Site} :
    (ss : List Stmt) → RecordedStmts t ss → Traced t env (outlineStmts ss) (usesStmts env done ss)
  | [], _ => .nil
  | s :: ss, h => (traced_stmt s h.1).append (traced_stmts ss h.2)

theorem traced_expr {env : List Frame} {done : List Site} :
    (e : Expr) → RecordedExpr t e → Traced t env (outlineExpr e) (usesExpr env done e)
  | .absent _, _ | .lost, _ | .bare _ _, _ | .literal _ _ _, _ => .nil
  | .ident n _, h => .one fun p hp => by
    rw [mem_singleton.1 hp]
    exact ⟨(isSome_map ..).trans h, nofun⟩
  | .binary _ _ left right, h | .index _ left right, h | .whileLoop _ left right, h =>
    (traced_expr left h.1).append (traced_expr right h.2)
  | .unary _ _ e, h | .ref _ _ e, h | .deref _ e, h | .field _ e _, h => traced_expr e h
  | .call n callee args, h => by
    rw [usesExpr_call]
    refine .append ?_ (traced_exprs args h.2.2)
    have hother := @traced_expr env done callee h.2.1
    cases callee with
    | ident c name =>
      refine .one fun p hp => ?_
      obtain rfl | hp := mem_cons.1 hp
      · exact ⟨(isSome_map ..).trans h.2.1, nofun⟩
      · rw [mem_singleton.1 hp]
        exact ⟨(isSome_map ..).trans h.1, nofun⟩
    | _ => exact hother
  | .array _ elems elemType, h => (Traced.type elemType h.2).first (traced_exprs elems h.1)
  | .cast _ value type, h => by
    have hcast := (@traced_expr env done value h.1).append
      (.type type h.2 :
        Traced t env .empty (usesType env (done ++ (outlineExpr value).completed) type))
    rwa [Outline.append_empty] at hcast
  | .block n stmts, h => .enclose rfl (by simpa [scopeAt] using h.1) (traced_stmts stmts h.2)
  | .ifElse _ cond body arms, h => (traced_expr cond h.1).append
      ((traced_expr body h.2.1).append (traced_arms arms h.2.2))
  | .forLoop n binding _ iter body, h => (traced_expr iter h.2.1).append (.enclose
      rfl (by simpa [scopeAt] using h.1) (.behind (.declare (by simpa [declAt] using h.1))
        (traced_expr body h.2.2)))

theorem traced_exprs {env : List Frame} {done : List Site} :
    (es : List Expr) → RecordedExprs t es → Traced t env (outlineExprs es) (usesExprs env done es)
  | [], _ => .nil
  | e :: es, h => (traced_expr e h.1).append (traced_exprs es h.2)

theorem traced_arms {env : List Frame} {done : List Site} :
    (arms : List Arm) → RecordedArms t arms → Traced t env (outlineArms arms)
      (usesArms env done arms)
  | [], _ => .nil
  | .mk _ cond body _ :: arms, h => (traced_expr cond h.1).append
      ((traced_expr body h.2.1).append (traced_arms arms h.2.2))

end

theorem traced_program (t : Tree) : Traced t [rootFrame t] (outline t) (uses t) :=
  traced_stmts _ (recorded_program t)

theorem recorded_bare (t : Tree) : RecordedStmts t.bare t.program :=
  t.program_bare ▸ recorded_program t.bare

end Resolution

end UnitCheck
