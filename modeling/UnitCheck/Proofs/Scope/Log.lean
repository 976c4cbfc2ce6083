import UnitCheck.Proofs.Name
import UnitCheck.Proofs.Scope.Table
import Mathlib.Data.List.Dedup

/-!
# The log of declarations

All that a table binds can be read off its declarations (`Table.Accounts`): a scope binds what was
declared in it, newest first, and a name that was declared again where only the newest counts is a
fault with a note at the declaration before (`overrides`). There are as many of these as there are
declarations beyond the first of each name (`length_overrides`).
-/

namespace UnitCheck

open List

/-- The name spaces of a scope. -/
inductive Space
  | values
  | types
  | members
deriving DecidableEq

def DeclKind.space : DeclKind → Space
  | .type => .types
  | .field | .variant => .members
  | _ => .values

namespace Scope

def bindings (s : Scope) : Space → Bindings
  | .values => s.values
  | .types => s.types
  | .members => s.members

theorem bindings_bind (d : Decl) (i : DeclId) (s : Scope) (x : Space) : (s.bind d i).bindings x =
    if d.kind.space = x then (d.name, ⟨i, d.kind, d.span⟩) :: s.bindings x else s.bindings x := by
  unfold bind
  cases d.kind <;> cases x <;> rfl

variable {x : Space} {i : ScopeId} {name : NameId} {log : List Declared}

def boundIn (x : Space) (i : ScopeId) (log : List Declared) : Bindings :=
  (log.filter fun d => d.entry.kind.space = x ∧ d.scope = i).map fun d => (d.name, d.entry)

/-- The last declaration of a name. -/
def last? (x : Space) (i : ScopeId) (name : NameId) (log : List Declared) : Option Declared :=
  log.find? fun d => d.entry.kind.space = x ∧ d.scope = i ∧ d.name = name

theorem newest?_boundIn :
    (boundIn x i log).newest? name = (last? x i name log).map Declared.entry := by
  rw [Bindings.newest?, Bindings.of, boundIn, last?, filter_map, map_map, List.head?_map,
    filter_filter, ← List.head?_filter]
  refine congrArg (fun p => (log.filter p).head?.map Declared.entry) (funext fun d => ?_)
  grind

/-- The declaration that another one replaces; values replace nothing. -/
def rival? (d : Declared) (older : List Declared) : Option Declared :=
  if d.entry.kind.space = .values then none else last? d.entry.kind.space d.scope d.name older

/-- All declarations that replace one, oldest first, each with the one that it replaces. -/
def overrides : List Declared → List (Declared × Declared)
  | [] => []
  | d :: older => overrides older ++ ((rival? d older).map (d, ·)).toList

/-- What is declared in a name space: the scope and the name. -/
def keys (x : Space) (log : List Declared) : List (ScopeId × NameId) :=
  (log.filter fun d => d.entry.kind.space = x).map fun d => (d.scope, d.name)

theorem length_keys (x : Space) (d : Decls) :
    (keys x d.log).length = (d.items.toList.map Decl.kind).countP fun k => k.space = x := by
  have hkinds : (d.log.map fun e => e.entry.kind) = (d.items.toList.map Decl.kind).reverse := by
    rw [Decls.log, map_reverse]
    exact congrArg _ (ext_getElem (by simp) (by simp [Decl.declared]))
  rw [← countP_reverse, ← hkinds, countP_map, keys, length_map, countP_eq_length_filter]
  rfl

theorem isSome_last? : (last? x i name log).isSome ↔ (i, name) ∈ keys x log := by
  simp [last?, keys]
  grind

/-- A declaration replaces one or is the first of its name. -/
theorem length_overrides (log : List Declared) :
    (overrides log).length + (keys .types log).dedup.length + (keys .members log).dedup.length =
      (keys .types log).length + (keys .members log).length := by
  induction log with
  | nil => rfl
  | cons d older ih =>
    have hother {x : Space} (hx : d.entry.kind.space ≠ x) : keys x (d :: older) = keys x older := by
      simp [keys, hx]
    have hown {x : Space} (hx : d.entry.kind.space = x) :
      keys x (d :: older) = (d.scope, d.name) :: keys x older := by
      simp [keys, hx]
    -- in its own name space it is the first of its name, or it replaces one
    have hrival {x : Space} (hx : d.entry.kind.space = x) (hne : x ≠ .values) :
        ((rival? d older).map (d, ·)).toList.length + (keys x (d :: older)).dedup.length =
          (keys x older).dedup.length + 1 := by
      rw [hown hx, rival?, if_neg (hx ▸ hne), hx]
      by_cases hmem : (d.scope, d.name) ∈ keys x older
      · obtain ⟨e, he⟩ := Option.isSome_iff_exists.1 (isSome_last?.2 hmem)
        rw [he, dedup_cons_of_mem hmem]
        exact Nat.add_comm ..
      · rw [Option.not_isSome_iff_eq_none.1 (mt isSome_last?.1 hmem), dedup_cons_of_notMem hmem]
        exact Nat.zero_add _
    rw [overrides, length_append]
    cases hx : d.entry.kind.space with
    | values =>
      rw [rival?, if_pos hx, hother (by simp [hx]), hother (by simp [hx])]
      exact ih
    | types =>
      have hr := hrival hx nofun
      rw [hother (x := .members) (by simp [hx])]
      rw [hown hx, length_cons] at *
      omega
    | members =>
      have hr := hrival hx nofun
      rw [hother (by simp [hx])]
      rw [hown hx, length_cons] at *
      omega

/-- Where a fault is, and where its notes are. -/
def mark (f : Fault) : Span × List Span := (f.span, f.notes.map Note.span)

theorem mark_clash? (names : NameTable) (d : Decl) (i : DeclId) (s : Scope) :
    (s.clash? names d i).map mark = if d.kind.space = .values then none
      else ((s.bindings d.kind.space).newest? d.name).map fun e => (d.span, [e.span]) := by
  unfold clash?
  cases d.kind <;> simp [DeclKind.space] <;> rfl

namespace Table

variable {t t' : Table}

/-- A table binds what its declarations say. -/
structure Accounts (t : Table) : Prop where
  placed : ∀ d ∈ t.decls.log, d.scope.index < t.size
  bindings : ∀ {i sc}, t.get? i = some sc → ∀ x, sc.bindings x = boundIn x i t.decls.log
  overrides : (t.faultsOf .scopeOverride).map mark =
    (overrides t.decls.log).map fun x => (x.1.entry.span, [x.2.entry.span])

theorem nodup_log (d : Decls) : (d.log.map fun x => x.entry.decl).Nodup := by
  rw [Decls.log, map_reverse, nodup_reverse]
  refine pairwise_iff_getElem.2 fun i j hi hj hlt => ?_
  simpa [Decl.declared] using Nat.ne_of_lt hlt

variable {d : Declared} {sc : Scope}

/-- A declaration is bound once, in the scope that it records. -/
theorem Accounts.count_eq (h : t.Accounts) (hd : d ∈ t.decls.log)
    (hsc : t.get? i = some sc) :
    ((sc.bindings d.entry.kind.space).map fun b => b.2.decl).count d.entry.decl =
      if i = d.scope then 1 else 0 := by
  have hnodup := nodup_log t.decls
  rw [h.bindings hsc, boundIn, map_map]
  refine (hnodup.sublist (filter_sublist.map _)).count.trans
    (if_congr ⟨fun hmem => ?_, fun hi => mem_map.2 ⟨d, ?_, rfl⟩⟩ rfl rfl)
  · obtain ⟨e, he, heq⟩ := mem_map.1 hmem
    obtain ⟨he, hx⟩ := mem_filter.1 he
    rw [← inj_on_of_nodup_map hnodup he hd heq]
    exact (of_decide_eq_true hx).2.symm
  · exact mem_filter.2 ⟨hd, decide_eq_true ⟨rfl, hi.symm⟩⟩

/-- One more declaration, which is bound where it stands. -/
theorem Accounts.bound (h : t.Accounts) {f : Scope → Scope} (hd : d.scope.index < t.size)
    (hlog : t'.decls.log = d :: t.decls.log) (hscopes : t'.scopes = t.scopes.modify d.scope.index f)
    (hf : ∀ s x, (f s).bindings x =
      if d.entry.kind.space = x then (d.name, d.entry) :: s.bindings x else s.bindings x)
    (hfaults : (t'.faultsOf .scopeOverride).map mark = (t.faultsOf .scopeOverride).map mark ++
      ((rival? d t.decls.log).map fun e => (d.entry.span, [e.entry.span])).toList) :
      t'.Accounts where
  placed e he := by
    rw [size, hscopes, Array.size_modify]
    rw [hlog] at he
    obtain rfl | he := mem_cons.1 he
    · exact hd
    · exact h.placed e he
  bindings {j sc} hget x := by
    rw [get?_of_modify hscopes] at hget
    rw [hlog]
    split at hget
    next hj =>
      obtain ⟨sc, hsc, rfl⟩ := Option.map_eq_some_iff.1 hget
      rw [hf, h.bindings hsc]
      by_cases hx : d.entry.kind.space = x <;> simp [hx, hj, boundIn]
    next hj =>
      rw [h.bindings hget]
      simp [hj, boundIn]
  overrides := by
    rw [hfaults, hlog, Scope.overrides, map_append, h.overrides]
    cases rival? _ t.decls.log <;> rfl

theorem Accounts.declare (h : t.Accounts) {d : Decl} (hsc : t.get? t.current = some sc)
    (hd : Declares d sc t t') : t'.Accounts := by
  refine h.bound (lt_size_of_get? hsc) hd.log hd.scopes (bindings_bind d _) ?_
  have hall : (sc.clash? t.names d ⟨t.decls.size + 1⟩).toList.filter
      (fun f => f.code == .scopeOverride) = (sc.clash? t.names d ⟨t.decls.size + 1⟩).toList :=
    filter_eq_self.2 fun f hf => beq_iff_eq.2 (code_of_clash (Option.mem_toList.1 hf))
  rw [faultsOf_append hd.faults, hall, map_append, ← Option.toList_map, mark_clash?, h.bindings hsc,
    newest?_boundIn, rival?]
  split
  · rfl
  · rw [Option.map_map]
    rfl

theorem Accounts.opened (h : t.Accounts) (kind : ScopeKind) (modifier : Modifier) (span : Span) :
    (t.opened kind modifier span).Accounts where
  placed d hd := by
    rw [size_opened]
    exact Nat.lt_succ_of_lt (h.placed d hd)
  bindings {i sc} hget x := by
    have hlt := lt_size_of_get? hget
    rw [size_opened] at hlt
    obtain hlt | heq := Nat.lt_succ_iff_lt_or_eq.1 hlt
    · rw [get?_opened_of_lt t kind modifier span hlt] at hget
      split at hget
      · obtain ⟨sc, hsc, rfl⟩ := Option.map_eq_some_iff.1 hget
        exact (show _ = sc.bindings x by cases x <;> rfl).trans (h.bindings hsc x)
      · exact h.bindings hget x
    · -- nothing was declared in the new scope
      obtain rfl : i = ⟨t.size⟩ := congrArg Id.mk heq
      rw [get?_opened_self] at hget
      cases hget
      have hnone : boundIn x ⟨t.size⟩ t.decls.log = [] := by
        rw [boundIn, filter_eq_nil_iff.2 fun d hd hx => ?_, map_nil]
        have hplaced := h.placed d hd
        rw [(of_decide_eq_true hx).2] at hplaced
        exact Nat.lt_irrefl _ hplaced
      exact (show _ = [] by cases x <;> rfl).trans hnone.symm
  overrides := h.overrides

theorem Accounts.congr (h : t.Accounts) (hlog : t'.decls.log = t.decls.log)
    (hscopes : t'.scopes = t.scopes)
    (hfaults : t'.faultsOf .scopeOverride = t.faultsOf .scopeOverride) : t'.Accounts where
  placed := by
    rw [hlog, size, hscopes]
    exact h.placed
  bindings {i sc} hget := by
    rw [hlog]
    rw [get?, hscopes] at hget
    exact h.bindings hget
  overrides := by
    rw [hfaults, hlog]
    exact h.overrides

/-- Built-in types have different names, so none replaces another. -/
theorem accounts_foldl_install (as : List String) (h : t.Accounts) (hroot : 0 < t.size)
    (hnew : (as.map fun a => (Text.ofString a).composed).Nodup)
    (hold : ∀ d ∈ t.decls.log, ∃ b ∉ as.map fun a => (Text.ofString a).composed,
      t.names.lookup? d.name = some b) : (as.foldl install t).Accounts := by
  induction as generalizing t with
  | nil => exact h
  | cons a as ih =>
    obtain ⟨hfirst, hnew⟩ := nodup_cons.1 hnew
    have hlog : (t.install a).decls.log =
        ⟨⟨⟨t.decls.size + 1⟩, .type, .zero⟩, (t.names.intern a).2, .root⟩ :: t.decls.log :=
          Decls.log_push ..
    have hrival : rival? ⟨⟨⟨t.decls.size + 1⟩, .type, .zero⟩, (t.names.intern a).2, .root⟩
      t.decls.log = none := by
      refine List.find?_eq_none.2 fun d hd hx => ?_
      obtain ⟨b, hb, hlookup⟩ := hold d hd
      have hsame := NameTable.lookup?_intern_of_lookup? hlookup a
      rw [(of_decide_eq_true hx).2.2, NameTable.lookup?_intern] at hsame
      exact hb (Option.some.inj hsame ▸ mem_cons_self)
    refine ih (h.bound hroot hlog (scopes_install t a) (fun s x => by cases x <;> rfl) ?_) ?_ hnew
      fun d hd => ?_
    · rw [hrival]
      exact (append_nil _).symm
    · rw [size, scopes_install, Array.size_modify]
      exact hroot
    · rw [hlog] at hd
      obtain rfl | hd := mem_cons.1 hd
      · exact ⟨_, hfirst, NameTable.lookup?_intern t.names a⟩
      · obtain ⟨b, hb, hlookup⟩ := hold d hd
        exact ⟨b, fun hb' => hb (mem_cons_of_mem _ hb'),
          NameTable.lookup?_intern_of_lookup? hlookup a⟩

theorem accounts_initial (names : NameTable) : (initial names).Accounts := by
  refine accounts_foldl_install preludeNames ⟨nofun, fun {i sc} hget x => ?_, rfl⟩ Nat.zero_lt_one
    (by decide +kernel) nofun
  obtain ⟨i⟩ := i
  obtain ⟨hi, rfl⟩ := Array.getElem?_eq_some_iff.1 hget
  obtain rfl : i = 0 := Nat.lt_one_iff.1 hi
  cases x <;> rfl

end Table

end Scope

end UnitCheck
