import UnitCheck.Scope.Table
import Mathlib.Tactic.Common

/-!
# Operations on a scope table

What each operation on a table does, so that the walks need not open it.

* `Table.Linked` is the shape of a table: the current scope exists, only the root has no parent,
  every other scope has a parent with a smaller identifier, and a scope lists those whose parent it
  is once each, oldest first. All operations keep it.
* Going outwards from a scope of a linked table meets a chain of scopes (`outward_eq`), so looking a
  name up never aborts, and checking the links finds nothing wrong (`validate_eq`).
-/

namespace UnitCheck

open List Option

/-- A computation that does not abort, by what it gives and the state that it leaves. -/
def Run.Gives {σ α : Type} (a : Run σ α) (s : σ) (Q : α → σ → Prop) : Prop :=
  ∃ x s', a s = .ok x s' ∧ Q x s'

theorem Run.bind_eq {σ α β : Type} {a : Run σ α} {f : α → Run σ β} {s t : σ} {x : α}
    (h : a s = .ok x t) : (a >>= f) s = f x t := by
  show EStateM.bind a f s = _
  rw [EStateM.bind, h]

namespace Run.Gives

variable {σ α β : Type} {a : Run σ α} {f : α → Run σ β} {s : σ} {Q Q' : α → σ → Prop}

theorem pure {x : α} (h : Q x s) : Gives (pure x) s Q := ⟨x, s, rfl, h⟩

theorem bind (h : Gives a s Q) (hf : ∀ x s', Q x s' → Gives (f x) s' R) : Gives (a >>= f) s R := by
  obtain ⟨x, s', hrun, hx⟩ := h
  obtain ⟨y, s'', hrun', hy⟩ := hf x s' hx
  exact ⟨y, s'', (bind_eq hrun).trans hrun', hy⟩

theorem step {x : α} {t : σ} (h : a s = .ok x t) (hf : Gives (f x) t R) : Gives (a >>= f) s R := by
  obtain ⟨y, t', hrun, hy⟩ := hf
  exact ⟨y, t', (bind_eq h).trans hrun, hy⟩

theorem need_bind {x : α} {o : Option α} (h : o = some x) (hf : Gives (f x) s R) :
    Gives (need o >>= f) s R :=
  h ▸ .step rfl hf

theorem discard {Q : σ → Prop} (h : Gives a s fun _ s' => Q s') :
    Gives (discard a) s fun _ s' => Q s' := by
  obtain ⟨x, s', hrun, hx⟩ := h
  refine ⟨(), s', ?_, hx⟩
  show EStateM.map _ a s = _
  rw [EStateM.map, hrun]

theorem mono (h : Gives a s Q) (hQ : ∀ x s', Q x s' → Q' x s') : Gives a s Q' := by
  obtain ⟨x, s', hrun, hx⟩ := h
  exact ⟨x, s', hrun, hQ x s' hx⟩

end Run.Gives

def Decl.tag (d : Decl) : DeclKind × Option NameId :=
  (d.kind, if d.builtin then some d.name else none)

def Decls.tags (d : Decls) : List (DeclKind × Option NameId) := d.items.toList.map Decl.tag

theorem Decls.tags_push (d : Decls) (x : Decl) : (d.push x).1.tags = d.tags ++ [x.tag] := by
  simp [tags, push]

variable {f : Decl → Decl}

theorem Decls.tags_modify (d : Decls) (i : DeclId) (h : ∀ x, (f x).tag = x.tag) :
    (d.modify i f).tags = d.tags := by
  unfold modify tags
  split
  · rfl
  · refine ext_getElem? fun k => ?_
    simp only [List.getElem?_map, Array.getElem?_toList, Array.getElem?_modify]
    split
    · rw [Option.map_map, show Decl.tag ∘ f = Decl.tag from funext h]
    · rfl

/-- A line of the log of declarations. -/
structure Declared where
  entry : Entry
  name : NameId
  scope : ScopeId
deriving DecidableEq

/-- What is never changed of a declaration. -/
def Decl.core (d : Decl) : Decl :=
  { d with owner := 0, typeKind := ⟨0⟩, modifier := .default, stmt := 0 }

def Decl.declared (d : Decl) (i : DeclId) : Declared := ⟨⟨i, d.kind, d.span⟩, d.name, d.scope⟩

/-- All declarations, newest first. -/
def Decls.log (d : Decls) : List Declared :=
  (d.items.toList.mapIdx fun k x => x.declared ⟨k + 1⟩).reverse

theorem Decls.log_push (d : Decls) (x : Decl) :
    (d.push x).1.log = x.declared (d.push x).2 :: d.log := by
  simp [log, push]

theorem Decls.log_modify (d : Decls) (i : DeclId) (h : ∀ x, (f x).core = x.core) :
    (d.modify i f).log = d.log := by
  unfold modify log
  split
  · rfl
  · refine congrArg List.reverse (ext_getElem? fun k => ?_)
    simp only [List.getElem?_mapIdx, Array.getElem?_toList, Array.getElem?_modify]
    split
    · rw [Option.map_map]
      exact congrArg (Option.map · _) (funext fun x => (congrArg (Decl.declared · ⟨k + 1⟩) (h x) :))
    · rfl

namespace Scope

open Run (Gives)

def bind (d : Decl) (i : DeclId) (s : Scope) : Scope :=
  let e : Entry := ⟨i, d.kind, d.span⟩
  match d.kind with
  | .type => { s with types := (d.name, e) :: s.types }
  | .field | .variant => { s with members := (d.name, e) :: s.members }
  | _ => { s with values := (d.name, e) :: s.values }

/-- The fault of binding a declaration where a name has only one. -/
def clash? (names : NameTable) (d : Decl) (i : DeclId) (s : Scope) : Option Fault :=
  let e : Entry := ⟨i, d.kind, d.span⟩
  match d.kind with
  | .type => (s.types.newest? d.name).map (Table.override
      ("type '" ++ names.display d.name ++ "' is already declared in this scope") e)
  | .field | .variant => (s.members.newest? d.name).map (Table.override
      (d.kind.toText ++ " '" ++ names.display d.name ++ "' is already declared in this type") e)
  | _ => none

theorem code_of_clash {names : NameTable} {d : Decl} {i : DeclId} {s : Scope} {f : Fault}
    (h : s.clash? names d i = some f) : f.code = .scopeOverride := by
  unfold clash? at h
  split at h
  · obtain ⟨_, _, rfl⟩ := map_eq_some_iff.1 h
    rfl
  · obtain ⟨_, _, rfl⟩ := map_eq_some_iff.1 h
    rfl
  · obtain ⟨_, _, rfl⟩ := map_eq_some_iff.1 h
    rfl
  · cases h

theorem parent_bind (d : Decl) (i : DeclId) (s : Scope) : (s.bind d i).parent = s.parent := by
  unfold bind
  split <;> rfl

theorem children_bind (d : Decl) (i : DeclId) (s : Scope) : (s.bind d i).children = s.children := by
  unfold bind
  split <;> rfl

namespace Table

/-- The faults among those of a table that say that a name was not found. -/
def unfound (t : Table) : List Fault := t.faults.toList.filter fun f => f.code == .notFoundInScope

def faultsOf (t : Table) (c : FaultCode) : List Fault := t.faults.toList.filter fun f => f.code == c

theorem faultsOf_append {t t' : Table} {fs : List Fault}
    (h : t'.faults.toList = t.faults.toList ++ fs)
    (c : FaultCode) : t'.faultsOf c = t.faultsOf c ++ fs.filter fun f => f.code == c := by
  rw [faultsOf, h, filter_append, faultsOf]

def parent? (t : Table) (i : ScopeId) : Option ScopeId := (t.get? i).bind Scope.parent

/-- The scopes form a tree with the root at the bottom. -/
structure Linked (t : Table) : Prop where
  current : t.current.index < t.size
  root : ∃ sc, t.get? .root = some sc ∧ sc.parent = none
  parent : ∀ {i sc}, t.get? i = some sc → i ≠ .root →
    ∃ p, sc.parent = some p ∧ p.index < i.index
  children : ∀ {p sc}, t.get? p = some sc → ∀ i,
    sc.children.count i = if t.parent? i = some p then 1 else 0
  increasing : ∀ {p sc}, t.get? p = some sc → sc.children.Pairwise fun i j => i.index < j.index

variable {t t' : Table} {sc : Scope} {i : ScopeId} {f : Scope → Scope} {scs : List Scope}

theorem lt_size_of_get? (h : t.get? i = some sc) : i.index < t.size :=
  (Array.getElem?_eq_some_iff.1 h).1

theorem exists_get? (h : i.index < t.size) : ∃ sc, t.get? i = some sc :=
  ⟨_, Array.getElem?_eq_getElem h⟩

theorem Linked.exists_current (h : t.Linked) : ∃ sc, t.get? t.current = some sc :=
  exists_get? h.current

theorem currentScope_eq (h : t.get? t.current = some sc) : currentScope t = .ok sc t := by
  show Run.need (t.get? t.current) t = _
  rw [h]
  rfl

theorem currentModifier_eq (h : t.get? t.current = some sc) :
    currentModifier t = .ok sc.modifier t := by
  show EStateM.bind currentScope _ t = _
  rw [EStateM.bind, currentScope_eq h]
  rfl

theorem modifyCurrent_eq (h : t.get? t.current = some sc) (f : Scope → Scope) :
    modifyCurrent f t = .ok () { t with scopes := t.scopes.modify t.current.index f } := by
  show EStateM.bind currentScope _ t = _
  rw [EStateM.bind, currentScope_eq h]
  rfl

/-! ## Declaring -/

/-- What binding a name does to a table: `f` happens to the current scope, and a binding that is
replaced is a fault. -/
structure Inserts (f : Scope → Scope) (fault? : Option Fault) (t t' : Table) : Prop where
  current : t'.current = t.current
  names : t'.names = t.names
  decls : t'.decls = t.decls
  scopes : t'.scopes = t.scopes.modify t.current.index f
  faults : t'.faults.toList = t.faults.toList ++ fault?.toList

section

variable (h : t.get? t.current = some sc) (name : NameId) (e : Entry)
include h name e

theorem gives_insertValue :
    Gives (insertValue name e) t fun _ t' =>
      Inserts (fun s => { s with values := (name, e) :: s.values }) none t t' :=
  ⟨(), _, modifyCurrent_eq h _, rfl, rfl, rfl, rfl, (append_nil _).symm⟩

theorem gives_insertType :
    Gives (insertType name e) t fun _ t' =>
      Inserts (fun s => { s with types := (name, e) :: s.types })
        ((sc.types.newest? name).map (override
          ("type '" ++ t.names.display name ++ "' is already declared in this scope") e)) t t' := by
  refine .step (currentScope_eq h) (.step (modifyCurrent_eq h _) ?_)
  cases hold : sc.types.newest? name with
  | none => exact .pure ⟨rfl, rfl, rfl, rfl, (append_nil _).symm⟩
  | some old => exact ⟨_, _, rfl, rfl, rfl, rfl, rfl, Array.toList_push⟩

theorem gives_insertMember :
    Gives (insertMember name e) t fun _ t' =>
      Inserts (fun s => { s with members := (name, e) :: s.members })
        ((sc.members.newest? name).map (override
          (e.kind.toText ++ " '" ++ t.names.display name ++ "' is already declared in this type")
            e)) t t' := by
  refine .step (currentScope_eq h) (.step (modifyCurrent_eq h _) ?_)
  cases hold : sc.members.newest? name with
  | none => exact .pure ⟨rfl, rfl, rfl, rfl, (append_nil _).symm⟩
  | some old => exact ⟨_, _, rfl, rfl, rfl, rfl, rfl, Array.toList_push⟩

end

/-- What declaring does to a table. -/
structure Declares (d : Decl) (sc : Scope) (t t' : Table) : Prop where
  current : t'.current = t.current
  names : t'.names = t.names
  decls : t'.decls.size = t.decls.size + 1
  tags : t'.decls.tags = t.decls.tags ++ [d.tag]
  log : t'.decls.log = ⟨⟨⟨t.decls.size + 1⟩, d.kind, d.span⟩, d.name, t.current⟩ :: t.decls.log
  scopes : t'.scopes = t.scopes.modify t.current.index (bind d ⟨t.decls.size + 1⟩)
  faults : t'.faults.toList = t.faults.toList ++ (sc.clash? t.names d ⟨t.decls.size + 1⟩).toList

theorem gives_declare (h : t.get? t.current = some sc) (d : Decl) :
    Gives (declare d) t fun i t' => i = ⟨t.decls.size + 1⟩ ∧ Declares d sc t t' := by
  -- the table with the declaration, before its name is bound
  let t1 : Table := { t with decls := (t.decls.push { d with scope := t.current }).1 }
  have hsize : t1.decls.size = t.decls.size + 1 := Array.size_push _
  have htags : t1.decls.tags = t.decls.tags ++ [d.tag] := Decls.tags_push ..
  have hlog : t1.decls.log =
    ⟨⟨⟨t.decls.size + 1⟩, d.kind, d.span⟩, d.name, t.current⟩ :: t.decls.log :=
    Decls.log_push ..
  have h1 : t1.get? t1.current = some sc := h
  have hof : ∀ {f fault? t'}, Inserts f fault? t1 t' → f = bind d ⟨t.decls.size + 1⟩ →
      fault? = sc.clash? t.names d ⟨t.decls.size + 1⟩ → Declares d sc t t' :=
    fun hins hf hfault =>
      ⟨hins.current, hins.names, by rw [hins.decls, hsize], by rw [hins.decls, htags],
      by rw [hins.decls, hlog], by rw [hins.scopes, hf], by rw [hins.faults, hfault]⟩
  unfold bind clash? at hof
  refine .step rfl (.step rfl ?_)
  show Gives _ t1 _
  cases hkind : d.kind with
  | type =>
    refine (gives_insertType h1 d.name _).discard.bind fun _ t' hins =>
      .pure ⟨rfl, hof hins ?_ ?_⟩ <;> (rw [hkind]; rfl)
  | field | variant =>
    refine (gives_insertMember h1 d.name _).discard.bind fun _ t' hins =>
      .pure ⟨rfl, hof hins ?_ ?_⟩ <;> (rw [hkind]; rfl)
  | _ =>
    refine (gives_insertValue h1 d.name _).bind fun _ t' hins =>
      .pure ⟨rfl, hof hins ?_ (by rw [hkind])⟩
    rw [hkind]
    rfl

theorem Declares.faultsOf_eq {d : Decl} (h : Declares d sc t t') {c : FaultCode}
    (hc : c ≠ .scopeOverride) : t'.faultsOf c = t.faultsOf c := by
  rw [faultsOf_append h.faults, filter_eq_nil_iff.2 fun f hf => ?_, append_nil]
  rw [code_of_clash (mem_toList.1 hf), beq_iff_eq]
  exact hc.symm

/-! ## Opening and closing scopes -/

variable {c p : ScopeId} {sc' : Scope} {n : Nat}

theorem get?_of_modify
    (h : t'.scopes = t.scopes.modify c.index f) (i : ScopeId) :
    t'.get? i = if c = i then (t.get? i).map f else t.get? i := by
  obtain ⟨c⟩ := c
  obtain ⟨i⟩ := i
  simp only [get?, h, Array.getElem?_modify, Id.mk.injEq]

/-- Changing a scope and not its links leaves every scope the links that it had. -/
theorem links_of_modify (hparent : ∀ s, (f s).parent = s.parent)
    (hchildren : ∀ s, (f s).children = s.children) (hscopes : t'.scopes = t.scopes.modify c.index f)
    (hget : t'.get? i = some sc') :
    ∃ sc, t.get? i = some sc ∧ sc'.parent = sc.parent ∧ sc'.children = sc.children := by
  rw [get?_of_modify hscopes] at hget
  split at hget
  · obtain ⟨sc, hsc, rfl⟩ := map_eq_some_iff.1 hget
    exact ⟨sc, hsc, hparent sc, hchildren sc⟩
  · exact ⟨sc', hget, rfl, rfl⟩

theorem Linked.of_modify (h : t.Linked)
    (hscopes : t'.scopes = t.scopes.modify c.index f) (hcurrent : t'.current = t.current)
    (hparent : ∀ s, (f s).parent = s.parent) (hchildren : ∀ s, (f s).children = s.children) :
    t'.Linked := by
  have hparents : ∀ i, t'.parent? i = t.parent? i := by
    intro i
    rw [parent?, parent?, get?_of_modify hscopes]
    split
    · cases t.get? i with
      | none => rfl
      | some sc => exact hparent sc
    · rfl
  refine ⟨?_, ?_, fun hget hne => ?_, fun hget i => ?_, fun hget => ?_⟩
  · rw [hcurrent, size, hscopes, Array.size_modify]
    exact h.current
  · obtain ⟨sc, hsc, hroot⟩ := h.root
    rw [get?_of_modify hscopes, hsc]
    split
    · exact ⟨f sc, rfl, (hparent sc).trans hroot⟩
    · exact ⟨sc, rfl, hroot⟩
  · obtain ⟨sc, hsc, hparent, -⟩ := links_of_modify hparent hchildren hscopes hget
    rw [hparent]
    exact h.parent hsc hne
  · obtain ⟨sc, hsc, -, hchildren⟩ := links_of_modify hparent hchildren hscopes hget
    rw [hchildren, hparents]
    exact h.children hsc i
  · obtain ⟨sc, hsc, -, hchildren⟩ := links_of_modify hparent hchildren hscopes hget
    rw [hchildren]
    exact h.increasing hsc

theorem Linked.congr (h : t.Linked) (hscopes : t'.scopes = t.scopes)
    (hcurrent : t'.current = t.current) : t'.Linked := by
  have hget : ∀ i, t'.get? i = t.get? i := fun i => by rw [get?, hscopes]; rfl
  refine ⟨?_, by rw [hget]; exact h.root, fun hsc => h.parent ((hget _).symm.trans hsc),
    fun hsc i => ?_, fun hsc => h.increasing ((hget _).symm.trans hsc)⟩
  · rw [hcurrent, size, hscopes]
    exact h.current
  · rw [parent?, hget]
    exact h.children ((hget _).symm.trans hsc) i

theorem scopes_install (t : Table) (a : String) : (t.install a).scopes = t.scopes.modify 0 fun s =>
    { s with types := ((t.names.intern a).2, ⟨⟨t.decls.size + 1⟩, .type, .zero⟩) :: s.types } := rfl

theorem linked_initial (names : NameTable) : (initial names).Linked := by
  have hinstall : ∀ (as : List String) {t : Table}, t.Linked → (as.foldl install t).Linked := by
    intro as
    induction as with
    | nil => exact id
    | cons a as ih =>
      intro t h
      exact ih (h.of_modify (scopes_install t a) rfl (fun _ => rfl) fun _ => rfl)
  apply hinstall
  have honly : ∀ {i : ScopeId} {sc}, #[fresh .global .mutable none .zero][i.index]? = some sc →
      i = .root ∧ sc = fresh .global .mutable none .zero := by
    rintro ⟨i⟩ sc hget
    obtain ⟨hi, rfl⟩ := Array.getElem?_eq_some_iff.1 hget
    obtain rfl : i = 0 := Nat.lt_one_iff.1 hi
    exact ⟨rfl, rfl⟩
  refine ⟨Nat.zero_lt_one, ⟨_, rfl, rfl⟩, fun hget hne => absurd (honly hget).1 hne,
    fun hget i => ?_, fun hget => ?_⟩
  · rw [(honly hget).2, if_neg fun hp => ?_]
    · rfl
    · obtain ⟨sc, hsc, hparent⟩ := bind_eq_some_iff.1 hp
      rw [(honly hsc).2] at hparent
      cases hparent
  · rw [(honly hget).2]
    exact .nil

/-- A table with a new scope inside the current one, which is current then. -/
def opened (t : Table) (kind : ScopeKind) (modifier : Modifier) (span : Span) : Table :=
  { t with
    scopes := (t.scopes.modify t.current.index fun s =>
      { s with children := s.children ++ [⟨t.size⟩] }).push
        (.fresh kind modifier (some t.current) span)
    current := ⟨t.size⟩ }

theorem push_eq (h : t.get? t.current = some sc) (kind : ScopeKind) (modifier : Modifier)
    (span : Span) : push kind modifier span t = .ok ⟨t.size⟩ (t.opened kind modifier span) := by
  show EStateM.bind (modifyCurrent _) _ t = _
  rw [EStateM.bind, modifyCurrent_eq h]
  rfl

theorem pop_eq (h : t.get? t.current = some sc) (hparent : sc.parent = some p) :
    pop t = .ok () { t with current := p } := by
  show EStateM.bind currentScope _ t = _
  rw [EStateM.bind, currentScope_eq h]
  simp only [hparent]
  rfl

theorem goTo_eq (h : i.index < t.size) :
    goTo i t = .ok true { t with current := i } := by
  show (if i.index < t.size then _ else _ : Run Table Bool) t = _
  rw [if_pos h]
  rfl

section Opened

variable (t) (kind : ScopeKind) (modifier : Modifier) (span : Span)

@[simp] theorem size_opened : (t.opened kind modifier span).size = t.size + 1 := by
  simp [opened, size]

theorem get?_opened_self : (t.opened kind modifier span).get? ⟨t.size⟩ =
      some (.fresh kind modifier (some t.current) span) := by
  show (Array.push _ _)[t.size]? = _
  rw [Array.getElem?_push, if_pos (by rw [Array.size_modify]; rfl)]

theorem get?_opened_of_lt (h : i.index < t.size) :
    (t.opened kind modifier span).get? i = if t.current = i
      then (t.get? i).map fun s => { s with children := s.children ++ [⟨t.size⟩] }
      else t.get? i := by
  let t' : Table := { t with scopes := t.scopes.modify t.current.index fun s =>
    { s with children := s.children ++ [⟨t.size⟩] } }
  rw [← get?_of_modify (show t'.scopes = _ from rfl) i]
  show (Array.push _ _)[i.index]? = t'.scopes[i.index]?
  rw [Array.getElem?_push, if_neg (by rw [Array.size_modify]; exact Nat.ne_of_lt h)]

end Opened

/-- A scope of the larger table is the new one, or one from before with its parent. -/
theorem opened_cases {kind : ScopeKind} {modifier : Modifier} {span : Span}
    (h : (t.opened kind modifier span).get? p = some sc') :
    p = ⟨t.size⟩ ∧ sc' = .fresh kind modifier (some t.current) span ∨
      ∃ sc, t.get? p = some sc ∧ sc'.parent = sc.parent ∧
        sc'.children = sc.children ++ if t.current = p then [⟨t.size⟩] else [] := by
  have hlt := lt_size_of_get? h
  rw [size_opened] at hlt
  obtain hlt | heq := Nat.lt_succ_iff_lt_or_eq.1 hlt
  · rw [get?_opened_of_lt t kind modifier span hlt] at h
    split at h
    next hp =>
      obtain ⟨sc, hsc, rfl⟩ := map_eq_some_iff.1 h
      exact .inr ⟨sc, hsc, rfl, by rw [if_pos hp]⟩
    next hp => exact .inr ⟨sc', h, rfl, by rw [if_neg hp, append_nil]⟩
  · obtain rfl : p = ⟨t.size⟩ := congrArg Id.mk heq
    rw [get?_opened_self] at h
    cases h
    exact .inl ⟨rfl, rfl⟩

/-- Only the new scope has a parent that it had not before. -/
theorem parent?_opened (t : Table) (kind : ScopeKind) (modifier : Modifier) (span : Span)
    (i : ScopeId) : (t.opened kind modifier span).parent? i =
      if i = ⟨t.size⟩ then some t.current else t.parent? i := by
  unfold parent?
  split
  next hi =>
    rw [hi, get?_opened_self]
    rfl
  next hi =>
    rcases Nat.lt_trichotomy i.index t.size with hlt | heq | hgt
    · rw [get?_opened_of_lt t kind modifier span hlt]
      split
      · cases t.get? i <;> rfl
      · rfl
    · exact absurd (congrArg Id.mk heq) hi
    · rw [get?, get?, Array.getElem?_eq_none (Nat.le_of_lt hgt), Array.getElem?_eq_none]
      have hsize := size_opened t kind modifier span
      rw [size] at hsize
      omega

theorem Linked.parent?_lt (h : t.Linked) {i : ScopeId} (hp : t.parent? i = some p) :
    p.index < i.index ∧ i.index < t.size := by
  obtain ⟨sc, hsc, hparent⟩ := bind_eq_some_iff.1 hp
  refine ⟨?_, lt_size_of_get? hsc⟩
  by_cases hi : i = .root
  · subst hi
    obtain ⟨sc', hsc', hroot⟩ := h.root
    cases hsc.symm.trans hsc'
    cases hparent.symm.trans hroot
  · obtain ⟨p', hp', hlt⟩ := h.parent hsc hi
    cases hparent.symm.trans hp'
    exact hlt

theorem Linked.mem_children (h : t.Linked) (hsc : t.get? p = some sc) (i : ScopeId) :
    i ∈ sc.children ↔ t.parent? i = some p := by
  rw [← count_pos_iff, h.children hsc i]
  split <;> simpa

theorem Linked.opened (h : t.Linked) (kind : ScopeKind) (modifier : Modifier) (span : Span) :
    (t.opened kind modifier span).Linked := by
  refine ⟨by rw [size_opened]; exact .refl, ?_, fun {i sc'} hget hne => ?_,
    fun {p sc'} hget i => ?_, fun {p sc'} hget => ?_⟩
  · obtain ⟨sc, hsc, hparent⟩ := h.root
    rw [get?_opened_of_lt t kind modifier span (lt_size_of_get? hsc), hsc]
    split
    · exact ⟨_, rfl, hparent⟩
    · exact ⟨sc, rfl, hparent⟩
  · obtain ⟨rfl, rfl⟩ | ⟨sc, hsc, hparent, -⟩ := opened_cases hget
    · -- the new scope stands inside the current one
      exact ⟨t.current, rfl, h.current⟩
    · rw [hparent]
      exact h.parent hsc hne
  · rw [parent?_opened]
    obtain ⟨rfl, rfl⟩ | ⟨sc, hsc, -, hchildren⟩ := opened_cases hget
    · -- nothing stands inside the new scope
      rw [eq_comm]
      refine if_neg fun hp => ?_
      split at hp
      · exact absurd (congrArg Id.index (some.inj hp)) (Nat.ne_of_lt h.current)
      · exact Nat.lt_asymm (h.parent?_lt hp).1 (h.parent?_lt hp).2
    · -- the current scope lists the new one, which it did not before
      rw [hchildren, count_append, h.children hsc i]
      by_cases hi : i = ⟨t.size⟩
      · have hnew : t.parent? i = none := by
          rw [hi, parent?, show t.get? ⟨t.size⟩ = none from Array.getElem?_eq_none .refl]
          rfl
        by_cases hcurrent : t.current = p <;> simp [hi, hi ▸ hnew, hcurrent]
      · by_cases hcurrent : t.current = p <;> simp [hi, Ne.symm hi, hcurrent]
  · obtain ⟨-, rfl⟩ | ⟨sc, hsc, -, hchildren⟩ := opened_cases hget
    · exact .nil
    · -- the new scope is listed last, and all before it are older
      rw [hchildren]
      refine pairwise_append.2 ⟨h.increasing hsc, ?_, fun i hi j hj => ?_⟩
      · split <;> simp
      · obtain rfl : j = ⟨t.size⟩ := by
          split at hj
          · exact mem_singleton.1 hj
          · cases hj
        exact (h.parent?_lt ((h.mem_children hsc i).1 hi)).2

theorem Linked.goTo (h : t.Linked) (hi : i.index < t.size) :
    ({ t with current := i } : Table).Linked := ⟨hi, h.root, h.parent, h.children, h.increasing⟩

/-! ## Going outwards -/

def Chain (t : Table) : Option ScopeId → List Scope → Prop
  | p, [] => p = none
  | p, sc :: scs => ∃ i, p = some i ∧ t.get? i = some sc ∧
      (∀ q, sc.parent = some q → q.index < i.index) ∧ t.Chain sc.parent scs

/-- Identifiers fall on the way outwards, so enough steps meet all of the way. -/
theorem outward_eq {p : Option ScopeId} (h : t.Chain p scs)
    (hn : ∀ i, p = some i → i.index < n) : t.outward n p = scs.map some := by
  induction scs generalizing p n with
  | nil =>
    cases n <;> · rw [h]; rfl
  | cons sc scs ih =>
    obtain ⟨i, rfl, hget, hless, hchain⟩ := h
    obtain ⟨n, rfl⟩ := Nat.exists_eq_succ_of_ne_zero (Nat.ne_of_gt (Nat.zero_lt_of_lt (hn i rfl)))
    rw [outward, hget]
    refine congrArg (some sc :: ·) (ih hchain fun q hq => ?_)
    exact Nat.lt_of_lt_of_le (hless q hq) (Nat.le_of_lt_succ (hn i rfl))

theorem enclosing_eq (h : t.Chain (some t.current) scs)
    (hcurrent : t.current.index < t.size) : t.enclosing = scs.map some := by
  refine outward_eq h fun i hi => ?_
  cases hi
  exact Nat.lt_succ_of_lt hcurrent

theorem firstOf_map_some {α : Type} (ask : Scope → Option α) (scs : List Scope) :
    firstOf ask (scs.map some) = .ok (scs.findSome? ask) := by
  induction scs with
  | nil => rfl
  | cons sc scs ih =>
    rw [map_cons, firstOf, List.findSome?_cons]
    cases ask sc with
    | none => exact ih
    | some a => rfl

/-- Where every link leads somewhere, each scope on the way gives its functions. -/
theorem functions_of_enclosing (h : t.enclosing = scs.map some) (name : NameId) : t.functions name =
      .ok (scs.flatMap fun s => (s.values.of name).filter fun e => e.kind == .function) := by
  have hall : ∀ {f : Option Scope → Except Abort Scope}, (∀ sc, f (some sc) = .ok sc) →
      (scs.map some).mapM f = .ok scs := by
    intro f hf
    clear h
    induction scs with
    | nil => rfl
    | cons sc scs ih =>
      rw [map_cons, mapM_cons, hf, ih]
      rfl
  rw [functions, h, hall fun _ => rfl]
  rfl

theorem Linked.reachesRoot (h : t.Linked) (hn : i.index ≤ n)
    (hi : i.index < t.size) : t.reachesRoot n (some i) = .ok true := by
  induction n generalizing i with
  | zero =>
    obtain rfl : i = .root := congrArg Id.mk (Nat.le_zero.1 hn)
    rfl
  | succ n ih =>
    rw [reachesRoot]
    split
    · rfl
    next hroot =>
      obtain ⟨sc, hget⟩ := exists_get? hi
      obtain ⟨p, hp, hlt⟩ := h.parent hget fun hi => hroot (congrArg some hi)
      rw [bind_some, hget]
      simp only [hp]
      exact ih (by omega) (Nat.lt_trans hlt hi)

theorem Linked.linkError?_eq (h : t.Linked) {s : Scope} (hs : t.get? i = some s)
    (hi : i ≠ .root) : t.linkError? i s = .ok none := by
  obtain ⟨p, hp, hlt⟩ := h.parent hs hi
  have hi := lt_size_of_get? hs
  obtain ⟨parent, hparent⟩ := exists_get? (Nat.lt_trans hlt hi)
  have hone : (parent.children.filter (· == i)).length = 1 := by
    have hcount := h.children hparent i
    rwa [parent?, hs, bind_some, if_pos hp, count_eq_countP,
      countP_eq_length_filter] at hcount
  unfold linkError?
  rw [hp, bind_some, hparent]
  simp only [hone]
  rw [h.reachesRoot (Nat.le_of_lt hi) hi]
  rfl

theorem Linked.validate_eq (h : t.Linked) : t.validate = .ok none := by
  have hall : ∀ rest : List (Scope × Nat), (∀ x ∈ rest, x.2 ≠ 0 ∧ t.get? ⟨x.2⟩ = some x.1) →
      t.firstLinkError rest = .ok none := by
    intro rest
    induction rest with
    | nil => exact fun _ => rfl
    | cons x rest ih =>
      intro hx
      obtain ⟨hne, hget⟩ := hx x mem_cons_self
      have hfirst := h.linkError?_eq hget fun hi => hne (congrArg Id.index hi)
      rw [firstLinkError, hfirst]
      exact ih fun y hy => hx y (mem_cons_of_mem _ hy)
  obtain ⟨root, hroot, hparent⟩ := h.root
  unfold validate
  split
  next hnil =>
    rw [get?, ← Array.getElem?_toList, hnil] at hroot
    cases hroot
  next root' rest hscopes =>
    have hget (k : Nat) : t.get? ⟨k⟩ = (root' :: rest)[k]? := by
      rw [get?, ← Array.getElem?_toList, hscopes]
    cases (hget 0).symm.trans hroot
    rw [if_neg (by simp [hparent])]
    refine hall _ fun x hx => ?_
    obtain ⟨hle, hx⟩ := mk_mem_zipIdx_iff_le_and_getElem?_sub.1 hx
    refine ⟨by omega, ?_⟩
    rw [hget, List.getElem?_cons, if_neg (by omega)]
    exact hx

end Table

end Scope

end UnitCheck
