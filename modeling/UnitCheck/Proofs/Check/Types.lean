import UnitCheck.Proofs.Data.Latest
import UnitCheck.Check.Basic
import UnitCheck.Proofs.Lowering.Regular
import UnitCheck.Proofs.Typing.Settle
import UnitCheck.Syntax.Build

/-!
# The types that a check finds

All passes come to an end on every complete and well-formed tree. What they say about types:

* every value and every slot has a type, in which nothing is left open (`passes_settle`), faults or
  not;
* the error type appears only where a fault was reported (`passes_never_poison`).
-/

namespace UnitCheck

open List

/-! ## Types inside of types -/

namespace TypeTable

variable (T : TypeTable)

/-- The types that a type consists of. Those of a function type are its parameters and its
result. -/
def parts (i : TypeId) : List TypeId :=
  (T.lookup? i).elim [] (fun ty => ty.shape.parts) ++
    (T.signature? i).elim [] fun x => x.result :: x.params

/-- A type is the other one or stands in it, at any depth. -/
inductive Contains : TypeId → TypeId → Prop
  | self (i : TypeId) : Contains i i
  | part {i j k : TypeId} : j ∈ T.parts i → Contains j k → Contains i k

/-- A type that is there, with all of its parts. Neither it nor a part of it is a variable or an
untyped kind. -/
def Settled (i : TypeId) : Prop := ∀ j, T.Contains i j → ∃ ty, T.lookup? j = some ty ∧
  ty.kind ≠ .var ∧ ty.kind.isUntyped = false

variable {T} {i j : TypeId}

theorem parts_eq_parts_view (i : TypeId) : T.parts i = (T.view i).parts := by
  unfold parts view signature?
  cases hlook : T.lookup? i with
  | none => rfl
  | some ty =>
    obtain ⟨shape, m⟩ := ty
    cases shape with
    | fn slot =>
      dsimp only [Option.elim, Shape.parts, nil_append]
      split <;> rename_i hsig <;> rw [hsig] <;> rfl
    | _ => rfl

theorem Contains.rec_parts {P : TypeId → Prop} (h : T.Contains i j) (hi : P i)
    (hP : ∀ i, P i → ∀ j ∈ (T.view i).parts, P j) : P j := by
  induction h with
  | self => exact hi
  | part hpart _ ih =>
    rw [parts_eq_parts_view] at hpart
    exact ih (hP _ hi _ hpart)

theorem WellFormed.view_of_kind_var (wf : T.WellFormed) {ty : Ty} (h : T.lookup? i = some ty)
    (hkind : ty.kind = .var) : ∃ v, T.view i = .var v := by
  obtain ⟨shape, m⟩ := ty
  cases shape with
  | var v => exact ⟨v, view_of_var h⟩
  | plain k =>
    -- the kind of variables has a constructor of its own
    obtain rfl : k = .var := hkind
    cases ((wf.admits h).proper _ rfl).1
  | _ => cases hkind

theorem view_of_kind_error (h : T.kind i = .error) : T.view i = .atom (.plain .error) := by
  unfold kind at h
  split at h
  next ty hty => exact view_of_isError hty h
  next => cases h

theorem kind_ne_error_of_missing (h : T.lookup? i = none) (hj : T.Contains i j) :
    T.kind j ≠ .error := by
  have hnone := hj.rec_parts (P := fun i => T.lookup? i = none) h fun i hi j hj => by
    rw [view_eq_missing_iff.2 hi] at hj
    cases hj
  rw [kind, hnone]
  decide

end TypeTable

namespace Typing

open Code

variable {clean : Prop} {e : Env} {i j : TypeId}

/-! ## What settled and solid types contain -/

theorem Env.Final.parts (h : e.Final clean i) : ∀ j ∈ (e.types.view i).parts, e.Final clean j := by
  obtain ⟨u, hu, hleaves⟩ := h
  cases hview : e.types.view i with
  | missing | atom | var => nofun
  | wrap w elem =>
    obtain ⟨v, rfl, hv⟩ := hu.of_wrap hview
    cases hleaves with
    | wrap hleaves => exact forall_mem_singleton.2 ⟨v, hv, hleaves⟩
  | fn ps r =>
    obtain ⟨us, w, rfl, hlen, hw, hus⟩ := hu.of_fn hview
    cases hleaves with
    | fn hps hr =>
      refine forall_mem_cons.2 ⟨⟨w, hw, hr⟩, fun p hp => ?_⟩
      obtain ⟨k, hk, rfl⟩ := mem_iff_getElem.1 hp
      have hq := List.getElem?_eq_getElem (hlen ▸ hk : k < us.length)
      exact ⟨_, hus k _ _ (List.getElem?_eq_getElem hk) hq, hps _ (mem_of_getElem? hq)⟩

theorem Env.Final.settled (h : e.Final clean i) (good : e.Good) : e.types.Settled i := by
  intro j hj
  obtain ⟨u, hu, hleaves⟩ := hj.rec_parts h fun _ h => h.parts
  have hne : j ≠ 0 := by
    rintro rfl
    rw [hu.functional .missing] at hleaves
    cases hleaves with
    | missing hleaf => exact hleaf.ne_missing rfl
  obtain ⟨ty, hty⟩ := hu.eq_zero_or_lookup?.resolve_left hne
  refine ⟨ty, hty, fun hkind => ?_, ?_⟩
  · obtain ⟨v, hview⟩ := good.types.view_of_kind_var hty hkind
    rw [hu.functional (.free hview rfl)] at hleaves
    cases hleaves with
    | var hleaf => exact hleaf.ne_var v rfl
  · by_contra hkind
    rw [Bool.not_eq_false] at hkind
    rw [hu.functional (.atom (TypeTable.view_of_isUntyped hty hkind))] at hleaves
    cases hleaves with
    | atom hleaf =>
      rw [show ty.kind.isUntyped = false from hleaf.typed] at hkind
      cases hkind

theorem Env.Has.parts (h : e.Has clean i) (good : e.Good) :
    ∀ j ∈ (e.types.view i).parts, e.Has clean j := by
  cases hview : e.types.view i with
  | missing | atom | var => nofun
  | wrap w elem => exact forall_mem_singleton.2 (h.elem hview)
  | fn ps r =>
    obtain ⟨hps, hr⟩ := h.signature good hview
    exact forall_mem_cons.2 ⟨hr, hps⟩

theorem Env.Has.kind_ne_error (h : e.Has clean i) (good : e.Good) (hcalm : e.Calm clean)
    (hj : e.types.Contains i j) : e.types.kind j ≠ .error := by
  intro hkind
  have hj := hj.rec_parts h fun _ h => h.parts good
  cases hj.solid _ (.atom (TypeTable.view_of_kind_error hkind)) with
  | atom hleaf => exact hleaf.ne_error hcalm rfl

theorem Env.Final.kind_ne_error (h : e.Final clean i) (hcalm : e.Calm clean)
    (hj : e.types.Contains i j) : e.types.kind j ≠ .error := by
  intro hkind
  obtain ⟨u, hu, hleaves⟩ := hj.rec_parts h fun _ h => h.parts
  rw [hu.functional (.atom (TypeTable.view_of_kind_error hkind))] at hleaves
  cases hleaves with
  | atom hleaf => exact hleaf.ne_error hcalm rfl

end Typing

namespace Check

open Syntax Syntax.Build Typing

variable {tree : Tree} {p : Passes} {w s : State}

/-! ## All passes -/

def Passes.IsClean (p : Passes) : Prop := p.resolved.faults = [] ∧ p.lowered.faults = []

/-- What the passes made: regular code, and types that a walk over it gave, settled. -/
structure Passed (p : Passes) (w s : State) : Prop where
  dense : p.lowered.module.Dense
  regular : p.lowered.module.Regular p.IsClean
  run : inferModule p.lowered.module ⟨.initial p.lowered.module.types, [], [], [], [], 0⟩ =
    .ok (p.typed.localTypes, p.typed.valueTypes) s
  ends : Ends p.IsClean p.lowered.module w p.typed.localTypes p.typed.valueTypes s
  decls : p.typed.declTypes = Id.latest s.declTypes
  faults : p.typed.faults = s.env.faults.toList
  module : p.module = { p.lowered.module with types := s.env.types }

theorem exists_passed (hwf : Resolution.WellFormed tree)
    (hcomplete : areCompleteStmts tree.program = true) :
    ∃ p w s, passes tree = .ok p ∧ Passed p w s := by
  obtain ⟨r, t, hfront⟩ := Lowering.exists_front hwf hcomplete
  have hregular : t.module.Regular (r.faults = [] ∧ t.faults.toList = []) :=
    hfront.regular hwf hcomplete fun h => ⟨h.1, Array.toList_eq_nil_iff.1 h.2⟩
  obtain ⟨⟨locals, values⟩, s, hrun, w, hends⟩ := gives_inferModule hregular
  let typed : Typed := ⟨Id.latest s.declTypes, values, locals,
    s.copies.eraseDups.mergeSort fun a b => a.index ≤ b.index, s.env.faults.toList, s.env.count⟩
  have hinfer : infer t.module = .ok (typed, { t.module with types := s.env.types }) := by
    rw [infer, hrun]
  refine ⟨⟨r, ⟨t.module, t.faults.toList, t.arrays.toList⟩, typed,
    { t.module with types := s.env.types }⟩, w, s, ?_,
    ⟨hfront.ready.dense, hregular, hrun, hends, rfl, rfl, rfl⟩⟩
  simp only [passes, hfront.resolved, hfront.lowered, hinfer, Bind.bind, Except.bind, pure,
    Except.pure]

namespace Passed

theorem good (h : Passed p w s) : s.env.Good := h.ends.keeps.good

theorem types (h : Passed p w s) : p.module.types = s.env.types := by rw [h.module]

theorem calm (h : Passed p w s) (hfaults : p.faults = []) : s.env.Calm p.IsClean := by
  obtain ⟨hfirst, htyped⟩ := append_eq_nil_iff.1 hfaults
  rw [h.faults] at htyped
  exact ⟨append_eq_nil_iff.1 hfirst, Array.toList_eq_nil_iff.1 htyped⟩

end Passed

/-! ## Values and slots -/

variable {α : Type} {k : IdKind} {clean : Prop} {e e' : Env}
  {notes out : List (Id k × TypeId)} {xs : List α} {f : α → Nat}

theorem map_index_of_settledAs
    (h : List.Forall₂ (fun x => SettledAs clean e notes e' (f x)) xs out) :
    out.map (fun y => y.1.index) = xs.map f := by
  induction h with
  | nil => rfl
  | cons hy _ ih => rw [map_cons, map_cons, ih, hy.1]

theorem forall_of_settledAs
    (h : List.Forall₂ (fun x => SettledAs clean e notes e' (f x)) xs out) :
    ∀ y ∈ out, e'.Final clean y.2 := by
  induction h with
  | nil => nofun
  | cons hy _ ih =>
    obtain ⟨-, t, -, hsettles⟩ := hy
    exact forall_mem_cons.2 ⟨hsettles.isFinal, ih⟩

/-- Typing is complete and settled. On every complete and well-formed tree, faulty or not, the
passes come to an end; each value and each slot of the lowered code has one type; every such type is
there, and neither is nor contains a variable or an untyped kind; and the reports that a type was
not resolved are those of different variables. -/
theorem passes_settle (tree : Tree) (hwf : Resolution.WellFormed tree)
    (hcomplete : areCompleteStmts tree.program = true) :
    ∃ p, passes tree = .ok p ∧
      p.typed.valueTypes.map (fun y => y.1.index) = List.range' 1 p.lowered.module.counters.values ∧
      p.typed.localTypes.map (fun y => y.1.index) = List.range' 1 p.lowered.module.counters.locals ∧
      (∀ y ∈ p.typed.valueTypes, p.module.types.Settled y.2) ∧
      (∀ y ∈ p.typed.localTypes, p.module.types.Settled y.2) ∧
      ∃ s, inferModule p.lowered.module
          ⟨.initial p.lowered.module.types, [], [], [], [], 0⟩ =
            .ok (p.typed.localTypes, p.typed.valueTypes) s ∧
        s.env.unsettled.Nodup ∧
        p.typed.faults.filter (fun f => f.code = .unresolvedType) =
          s.env.unsettled.reverse.map s.env.unresolved := by
  obtain ⟨p, w, s, hpasses, h⟩ := exists_passed hwf hcomplete
  -- settling types reports each variable that it finds once
  have hone : s.env.Once := h.ends.keeps.grows.once h.ends.walked.once
  refine ⟨p, hpasses, ?_, ?_, ?_, ?_, s, h.run, hone.nodup, ?_⟩
  · have hids := map_index_of_settledAs (f := id) h.ends.settledValues
    rw [map_id, range_eq_range', drop_range', h.dense.values] at hids
    exact hids
  · have hids := map_index_of_settledAs h.ends.settledLocals
    rw [map_drop, zipIdx_map_snd, drop_range', Array.length_toList, h.dense.locals] at hids
    exact hids
  · rw [h.types]
    exact fun y hy => (forall_of_settledAs (f := id) h.ends.settledValues y hy).settled h.good
  · rw [h.types]
    exact fun y hy => (forall_of_settledAs h.ends.settledLocals y hy).settled h.good
  · rw [h.faults]
    exact hone.reports

/-- `fn f() { let xs = [] }`. Nothing says what the elements of `xs` are. -/
def openArray : Tree :=
  let build : Build Unit := do
    let elems ← array .zero 0 []
    let xs ← var .zero .zero (← name "xs") 0 elems .default
    let body ← block .zero [xs]
    let f ← name "f"
    pushRoot (← func .zero .zero f [] 0 body .default)
  (build .empty).2

/-- One variable is reported, and the types are settled all the same. -/
theorem passes_settle_openArray : ∃ p, passes openArray = .ok p ∧
    (p.typed.faults.filter fun f => f.code = .unresolvedType).length = 1 ∧
    p.typed.valueTypes.map (fun y => y.1.index) = List.range' 1 p.lowered.module.counters.values ∧
    (∀ y ∈ p.typed.valueTypes, p.module.types.Settled y.2) ∧
    (∀ y ∈ p.typed.localTypes, p.module.types.Settled y.2) := by
  obtain ⟨p, hp, hvalues, -, hsettled, hsettled', -⟩ :=
    passes_settle openArray (by decide +kernel) (by decide +kernel)
  have heval : (passes openArray).toOption.map (fun p =>
      (p.typed.faults.filter fun f => f.code = .unresolvedType).length) = some 1 := by
    decide +kernel
  rw [hp] at heval
  exact ⟨p, hp, Option.some_inj.1 heval, hvalues, hsettled, hsettled'⟩

def recordedTypes (x : Typed) : List TypeId :=
  x.declTypes.map Prod.snd ++ (x.valueTypes.map Prod.snd ++ x.localTypes.map Prod.snd)

/-- No silent poison. If no pass reports a fault, no type that is recorded is or contains the error
type. -/
theorem passes_never_poison (tree : Tree) (hwf : Resolution.WellFormed tree)
    (hcomplete : areCompleteStmts tree.program = true) :
    ∃ p, passes tree = .ok p ∧ (p.faults = [] → ∀ i ∈ recordedTypes p.typed, ∀ j,
      p.module.types.Contains i j → p.module.types.kind j ≠ .error) := by
  obtain ⟨p, w, s, hpasses, h⟩ := exists_passed hwf hcomplete
  refine ⟨p, hpasses, fun hfaults i hi j hj => ?_⟩
  have hcalm := h.calm hfaults
  rw [h.types] at hj ⊢
  rcases mem_append.1 hi with hi | hi
  · obtain ⟨y, hy, rfl⟩ := mem_map.1 hi
    rw [h.decls] at hy
    rcases h.ends.decls y (Id.mem_of_mem_latest hy) with hy | hfinal
    · by_cases hvalid : y.2.isValid = true
      · have hhas := (h.ends.walked.ready.decls y hy hvalid).mono
          (.of_keeps h.ends.walked.ready.good h.ends.keeps)
        exact hhas.kind_ne_error h.good hcalm hj
      · -- a variant may have no type
        have hzero : y.2.index = 0 := by simpa [Id.isValid] using hvalid
        exact TypeTable.kind_ne_error_of_missing (if_pos hzero) hj
    · exact hfinal.kind_ne_error hcalm hj
  · have hfinal : s.env.Final p.IsClean i := by
      rcases mem_append.1 hi with hi | hi
      · obtain ⟨y, hy, rfl⟩ := mem_map.1 hi
        exact forall_of_settledAs (f := id) h.ends.settledValues y hy
      · obtain ⟨y, hy, rfl⟩ := mem_map.1 hi
        exact forall_of_settledAs h.ends.settledLocals y hy
    exact hfinal.kind_ne_error hcalm hj

/-- A function in which every kind of context occurs:
```
fn f(n: int) -> int {
  let mut m = n
  while m < n { m = n }
  if m < n { return m }
  f(m)
}
```
-/
def contexts : Tree :=
  let build : Build Unit := do
    let f ← name "f"
    let n ← name "n"
    let m ← name "m"
    let int ← name "int"
    let ident (x : NameId) : Build ExprId := ident .zero x
    let less : Build ExprId := do binary .zero ⟨8⟩ (← ident m) (← ident n)
    let bind ← var .zero .zero m 0 (← ident n) .mutable
    let loop ← do
      let assign ← assign .zero (← ident m) (← ident n)
      whileLoop .zero (← less) (← block .zero [assign])
    let branch ← do
      let exit ← jump .return_ .zero (← ident m)
      ifElse .zero (← less) (← block .zero [exit]) []
    let tail ← call .zero (← ident f) [← ident m]
    let body ← block .zero [bind, ← exprStmt .zero loop true,
      ← exprStmt .zero branch true, ← exprStmt .zero tail false]
    let param : Param := ⟨n, ← typeName .zero int .default, .default, .zero, 0⟩
    let result ← typeName .zero int .default
    pushRoot (← func .zero .zero f [param] result body .default)
  (build .empty).2

theorem wellFormed_contexts : Resolution.WellFormed contexts := by decide +kernel

theorem complete_contexts : areCompleteStmts contexts.program = true := by decide +kernel

theorem faults_contexts {p : Passes} (h : passes contexts = .ok p) : p.faults = [] := by
  have heval : (passes contexts).toOption.map (fun p => p.faults.isEmpty) = some true := by
    decide +kernel
  rw [h] at heval
  exact isEmpty_iff.1 (Option.some_inj.1 heval)

/-- The function has no fault, so no error type is recorded for it. -/
theorem passes_never_poison_contexts : ∃ p, passes contexts = .ok p ∧ p.faults = [] ∧
    ∀ i ∈ recordedTypes p.typed, ∀ j, p.module.types.Contains i j →
      p.module.types.kind j ≠ .error := by
  obtain ⟨p, hp, hclean⟩ := passes_never_poison contexts wellFormed_contexts complete_contexts
  exact ⟨p, hp, faults_contexts hp, hclean (faults_contexts hp)⟩

end Check

end UnitCheck
