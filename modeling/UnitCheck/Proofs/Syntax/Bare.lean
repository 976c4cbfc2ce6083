import UnitCheck.Syntax.Program

/-!
# Trees without their annotations

Name resolution writes into the annotation fields of records and nowhere else. `Tree.bare` erases
these fields, so that two trees with the same bare tree differ in annotations only. The program that
a tree describes is that of its bare tree (`Tree.program_bare`): passes that run one after the other
on a tree see the same program.
-/

namespace UnitCheck.Syntax

/-! ## Tables -/

namespace Arena

variable {α β : Type}

def map (f : α → β) (a : Arena α) : Arena β := ⟨a.rows.map fun rows => rows.map f⟩

theorem get?_map (f : α → β) (a : Arena α) (i : Nat) : (a.map f).get? i = (a.get? i).map f := by
  obtain ⟨rows⟩ := a
  unfold get?
  split
  · rfl
  · cases rows with
    | none => rfl
    | some rows => exact Array.getElem?_map

theorem mem_of_get? {a : Arena α} {i : Nat} {x : α} (h : a.get? i = some x) :
    x ∈ a.toArray.toList := by
  unfold get? at h
  split at h
  · cases h
  · exact Array.mem_toList_iff.2 (Array.mem_of_getElem? h)

theorem size_map (f : α → β) (a : Arena α) : (a.map f).size = a.size := by
  obtain ⟨rows⟩ := a
  cases rows with
  | none => rfl
  | some rows => exact Array.size_map

theorem map_modify {g : α → β} {f : α → α} (h : ∀ x, g (f x) = g x) (a : Arena α) (i : Nat) :
    (a.modify i f).map g = a.map g := by
  obtain ⟨rows⟩ := a
  unfold modify
  split
  · rfl
  · cases rows with
    | none => rfl
    | some rows =>
      refine congrArg (fun rows => mk (some rows)) (Array.ext_getElem? fun k => ?_)
      simp only [Array.getElem?_map, Array.getElem?_modify]
      split
      · rw [Option.map_map, show g ∘ f = g from funext h]
      · rfl

end Arena

/-! ## Records -/

def VarRecord.bare (r : VarRecord) : VarRecord := { r with decl := 0 }

def Param.bare (p : Param) : Param := { p with decl := 0 }

def FuncRecord.bare (r : FuncRecord) : FuncRecord :=
  { r with decl := 0, scope := none, params := r.params.map fun ps => ps.map Param.bare }

def Member.bare (m : Member) : Member := { m with decl := 0 }

def TypeDeclRecord.bare (r : TypeDeclRecord) : TypeDeclRecord :=
  { r with
    decl := 0
    scope := none
    fields := r.fields.map fun ms => ms.map Member.bare
    variants := r.variants.map fun ms => ms.map Member.bare }

def ImplRecord.bare (r : ImplRecord) : ImplRecord := { r with scope := none }

def IdentRecord.bare (r : IdentRecord) : IdentRecord := { r with decl := 0 }

def CallRecord.bare (r : CallRecord) : CallRecord := { r with candidates := none }

def BlockRecord.bare (r : BlockRecord) : BlockRecord := { r with scope := none }

def ForRecord.bare (r : ForRecord) : ForRecord := { r with decl := 0, scope := none }

def TypeRecord.bare (r : TypeRecord) : TypeRecord := { r with decl := 0 }

/-! ## Trees -/

namespace Tree

/-- The tree with empty annotations. Names are left out as well, since resolution adds to them. -/
def bare (t : Tree) : Tree where
  names := .empty
  stmts :=
    { t.stmts with
      vars := t.stmts.vars.map VarRecord.bare
      funcs := t.stmts.funcs.map FuncRecord.bare
      typeDecls := t.stmts.typeDecls.map TypeDeclRecord.bare
      impls := t.stmts.impls.map ImplRecord.bare }
  exprs :=
    { t.exprs with
      idents := t.exprs.idents.map IdentRecord.bare
      calls := t.exprs.calls.map CallRecord.bare
      blocks := t.exprs.blocks.map BlockRecord.bare
      fors := t.exprs.fors.map ForRecord.bare }
  types := t.types.map TypeRecord.bare
  root := t.root

/-- Nothing was written into the tree yet. -/
structure IsBare (t : Tree) : Prop where
  vars : ∀ r ∈ t.stmts.vars.toArray.toList, r.bare = r
  funcs : ∀ r ∈ t.stmts.funcs.toArray.toList, r.bare = r
  typeDecls : ∀ r ∈ t.stmts.typeDecls.toArray.toList, r.bare = r
  impls : ∀ r ∈ t.stmts.impls.toArray.toList, r.bare = r
  idents : ∀ r ∈ t.exprs.idents.toArray.toList, r.bare = r
  calls : ∀ r ∈ t.exprs.calls.toArray.toList, r.bare = r
  blocks : ∀ r ∈ t.exprs.blocks.toArray.toList, r.bare = r
  fors : ∀ r ∈ t.exprs.fors.toArray.toList, r.bare = r
  types : ∀ r ∈ t.types.toArray.toList, r.bare = r

variable (t : Tree)

theorem type?_bare (i : TypeExprId) : t.bare.type? i = (t.type? i).map TypeRecord.bare :=
  Arena.get?_map ..

theorem typeAt_bare (depth : Nat) (i : TypeExprId) : t.bare.typeAt depth i = t.typeAt depth i := by
  induction depth generalizing i with
  | zero => rfl
  | succ depth ih =>
    have habsent : t.bare.types.rows.isNone = t.types.rows.isNone := Option.isNone_map ..
    rw [typeAt, typeAt, type?_bare, habsent]
    cases t.type? i with
    | none => rfl
    | some r => simp only [Option.map_some, TypeRecord.bare, ih]

theorem typeExpr_bare (i : TypeExprId) : t.bare.typeExpr i = t.typeExpr i := by
  have hsize : t.bare.types.size = t.types.size := Arena.size_map ..
  rw [typeExpr, typeExpr, hsize, typeAt_bare]

theorem paramForm_bare : t.bare.paramForm = t.paramForm :=
  funext fun _ => by simp only [paramForm, typeExpr_bare]

theorem memberForm_bare : t.bare.memberForm = t.memberForm :=
  funext fun _ => by simp only [memberForm, typeExpr_bare]

theorem map_getD_map {α β : Type} {f : α → α} {g : α → β} (h : ∀ x, g (f x) = g x)
    (xs : Option (List α)) : ((xs.map fun xs => xs.map f).getD []).map g = (xs.getD []).map g := by
  cases xs with
  | none => rfl
  | some xs => simp [h]

/-- Statements and expressions unfold to the same forms. -/
theorem unfold_bare (depth : Nat) :
    t.bare.exprAt depth = t.exprAt depth ∧ t.bare.stmtAt depth = t.stmtAt depth := by
  induction depth with
  | zero => exact ⟨rfl, rfl⟩
  | succ depth ih =>
    obtain ⟨hexpr, hstmt⟩ := ih
    constructor
    · funext i
      have hheader : t.bare.expr? i = t.expr? i := rfl
      rw [exprAt, exprAt, hheader]
      cases t.expr? i with
      | none => rfl
      | some h =>
        simp only [hexpr, hstmt, typeExpr_bare]
        simp only [bare, Arena.get?_map, Option.map_map]
        rfl
    · funext i
      have hheader : t.bare.stmt? i = t.stmt? i := rfl
      rw [stmtAt, stmtAt, hheader]
      cases t.stmt? i with
      | none => rfl
      | some h =>
        simp only [hexpr, hstmt, typeExpr_bare, paramForm_bare, memberForm_bare]
        simp only [bare, Arena.get?_map, Option.map_map, Function.comp_def, VarRecord.bare,
          FuncRecord.bare, TypeDeclRecord.bare, ImplRecord.bare,
          map_getD_map (f := .bare) (g := t.paramForm) fun _ => rfl,
          map_getD_map (f := .bare) (g := t.memberForm) fun _ => rfl]

theorem program_bare : t.bare.program = t.program := by
  rw [program, (unfold_bare t t.bare.depth).2]
  rfl

end Tree

end UnitCheck.Syntax
