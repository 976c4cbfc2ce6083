import UnitCheck.Resolution.Bind
import Mathlib.Tactic.Common

/-!
# Lexical scoping

What a name means, said from the program alone. Nothing here runs a walk or knows of a scope table.

* `Site` is a place that declares something and `Region` a part of the program with a scope.
* `Outline` is what a part of a program declares: its sites in program order, what it binds in the
  scope that it stands in, and the scopes that it opens, each with everything that is bound in it.
* `Use` is a name that is used, with the scopes around it, innermost first, and the variables that
  program order has completed before it. A variable is completed behind its declaring statement, a
  loop variable where the body of its loop begins.
* `Use.site?` is the declaration that a use means: the innermost scope that binds the name visibly
  decides, and in it the latest visible binding wins. Everything but a variable is visible in its
  whole scope.
-/

namespace UnitCheck.Resolution

open List Syntax

/-! ## Places that declare -/

/-- A place that declares something, by the record of its node and the position within it. -/
inductive Site
  | builtin (k : Nat)
  | var (r : PayloadId)
  | loop (r : PayloadId)
  | func (r : PayloadId)
  | param (r : PayloadId) (i : Nat)
  | type (r : PayloadId)
  | field (r : PayloadId) (i : Nat)
  | variant (r : PayloadId) (i : Nat)
deriving DecidableEq

def Site.kind : Site → DeclKind
  | builtin _ | type _ => .type
  | var _ | loop _ => .var
  | func _ => .function
  | param _ _ => .param
  | field _ _ => .field
  | variant _ _ => .variant

/-- A part of a program with a scope of its own. The block of a function is the function's scope and
has none of its own, but it records the scope all the same. -/
inductive Region
  | root
  | func (r : PayloadId)
  | type (r : PayloadId)
  | impl (r : PayloadId)
  | block (r : PayloadId)
  | loop (r : PayloadId)
deriving DecidableEq

def Region.impl? : Region → Option PayloadId
  | impl r => some r
  | _ => none

abbrev Binder := NameId × Site

/-- Everything that a scope binds, in source order. -/
structure Frame where
  region : Region
  values : List Binder
  types : List Binder
deriving DecidableEq

/-- A declaration as it is written: the region that it stands in, its name, its site and the span
that messages show. Without a region it stands in that of the part of a program which it is seen
from. -/
structure Item where
  region : Option Region
  name : NameId
  site : Site
  span : Span
deriving DecidableEq

/-- What a part of a program declares. -/
structure Outline where
  /-- All sites in it, in program order; a variable comes behind its first value. -/
  sites : List Site
  /-- What is written at the sites. -/
  items : List Item
  /-- All nodes in it that record a scope. -/
  regions : List Region
  /-- The scopes that are opened in it and the region around each; `none` is the region that the
  part itself stands in. -/
  scopes : List (Option Region × Frame)
  /-- What it binds in the scope that it stands in. -/
  values : List Binder
  types : List Binder
  items_sites : items.map Item.site = sites
  items_mem : ∀ x ∈ items, ∀ r, x.region = some r → r ∈ regions
  values_mem : ∀ b ∈ values, b.2 ∈ sites
  types_mem : ∀ b ∈ types, b.2 ∈ sites
  scopes_mem : ∀ x ∈ scopes, x.2.region ∈ regions ∧ (∀ r, x.1 = some r → r ∈ regions) ∧
    (∀ b ∈ x.2.values, b.2 ∈ sites) ∧ ∀ b ∈ x.2.types, b.2 ∈ sites

namespace Outline

theorem eq_of_data {o o' : Outline} (hsites : o.sites = o'.sites) (hitems : o.items = o'.items)
    (hregions : o.regions = o'.regions) (hscopes : o.scopes = o'.scopes)
    (hvalues : o.values = o'.values) (htypes : o.types = o'.types) : o = o' := by
  cases o
  subst hsites hitems hregions hscopes hvalues htypes
  rfl

def empty : Outline where
  sites := []
  items := []
  regions := []
  scopes := []
  values := []
  types := []
  items_sites := rfl
  items_mem := by simp
  values_mem := by simp
  types_mem := by simp
  scopes_mem := by simp

def append (o o' : Outline) : Outline where
  sites := o.sites ++ o'.sites
  items := o.items ++ o'.items
  regions := o.regions ++ o'.regions
  scopes := o.scopes ++ o'.scopes
  values := o.values ++ o'.values
  types := o.types ++ o'.types
  items_sites := by rw [map_append, o.items_sites, o'.items_sites]
  items_mem x hx := by
    have h := o.items_mem x
    have h' := o'.items_mem x
    grind
  values_mem b hb := by
    have h := o.values_mem b
    have h' := o'.values_mem b
    grind
  types_mem b hb := by
    have h := o.types_mem b
    have h' := o'.types_mem b
    grind
  scopes_mem x hx := by
    have h := o.scopes_mem x
    have h' := o'.scopes_mem x
    grind

instance : Append Outline := ⟨append⟩

@[simp] theorem sites_append (o o' : Outline) : (o ++ o').sites = o.sites ++ o'.sites := rfl
@[simp] theorem regions_append (o o' : Outline) : (o ++ o').regions = o.regions ++ o'.regions := rfl

@[simp] theorem scopes_append (o o' : Outline) : (o ++ o').scopes = o.scopes ++ o'.scopes := rfl
@[simp] theorem values_append (o o' : Outline) : (o ++ o').values = o.values ++ o'.values := rfl
@[simp] theorem types_append (o o' : Outline) : (o ++ o').types = o.types ++ o'.types := rfl

@[simp] theorem empty_append (o : Outline) : empty ++ o = o :=
  eq_of_data (nil_append _) (nil_append _) (nil_append _) (nil_append _) (nil_append _)
    (nil_append _)

@[simp] theorem append_empty (o : Outline) : o ++ empty = o :=
  eq_of_data (append_nil _) (append_nil _) (append_nil _) (append_nil _) (append_nil _)
    (append_nil _)

/-- One site. Values and types are bound; fields and variants belong to their type. -/
def declare (name : NameId) (site : Site) (span : Span) : Outline where
  sites := [site]
  items := [⟨none, name, site, span⟩]
  regions := []
  scopes := []
  values := match site.kind with
    | .var | .function | .param => [(name, site)]
    | _ => []
  types := match site.kind with
    | .type => [(name, site)]
    | _ => []
  items_sites := rfl
  items_mem := by simp
  values_mem b hb := by split at hb <;> simp_all
  types_mem b hb := by split at hb <;> simp_all
  scopes_mem := by simp

def record (r : Region) : Outline :=
  { empty with regions := [r], items_mem := by simp [empty], scopes_mem := by simp [empty] }

def frame (r : Region) (o : Outline) : Frame := ⟨r, o.values, o.types⟩

def enclose (r : Region) (o : Outline) : Outline where
  sites := o.sites
  items := o.items.map fun x => { x with region := some (x.region.getD r) }
  regions := r :: o.regions
  scopes := (none, o.frame r) :: o.scopes.map fun x => (some (x.1.getD r), x.2)
  values := []
  types := []
  items_sites := by
    rw [map_map]
    exact o.items_sites
  items_mem x hx r' hr' := by
    obtain ⟨y, hy, rfl⟩ := mem_map.1 hx
    have hregion := o.items_mem y hy
    cases houter : y.region with
    | none => simp_all
    | some r'' => simp_all
  values_mem := by simp
  types_mem := by simp
  scopes_mem x hx := by
    obtain rfl | hx := mem_cons.1 hx
    · exact ⟨mem_cons_self, nofun, o.values_mem, o.types_mem⟩
    · obtain ⟨y, hy, rfl⟩ := mem_map.1 hx
      obtain ⟨hregion, houter, hvalues, htypes⟩ := o.scopes_mem y hy
      refine ⟨mem_cons_of_mem _ hregion, fun r' hr' => ?_, hvalues, htypes⟩
      cases hparent : y.1 with
      | none => simp_all
      | some r'' => simp_all

def completed (o : Outline) : List Site := o.sites.filter fun s => s.kind == .var

@[simp] theorem completed_empty : empty.completed = [] := rfl

@[simp] theorem completed_append (o o' : Outline) :
    (o ++ o').completed = o.completed ++ o'.completed := filter_append ..

def impls (o : Outline) : List PayloadId := o.regions.filterMap Region.impl?

@[simp] theorem impls_append (o o' : Outline) : (o ++ o').impls = o.impls ++ o'.impls :=
  filterMap_append

theorem mem_sites_of_mem_completed {o : Outline} {s : Site} (h : s ∈ o.completed) : s ∈ o.sites :=
  (mem_filter.1 h).1

end Outline

/-- Sites with names, one behind the other: the parameters of a function, or the fields or variants
of a type, from position `i` on. -/
def outlineEach (site : Nat → Site) : Nat → List (NameId × Span) → Outline
  | _, [] => .empty
  | i, a :: as => .declare a.1 (site i) a.2 ++ outlineEach site (i + 1) as

def labelOfParam (p : ParamForm) : NameId × Span := (p.name, p.span)

def labelOfMember (m : MemberForm) : NameId × Span := (m.name, m.span)

mutual

def outlineStmt : Stmt → Outline
  | .absent _ | .lost | .bare _ _ => .empty
  | .var n name span _ value _ => outlineExpr value ++ .declare name (.var n.record) span
  | .assign _ target value => outlineExpr target ++ outlineExpr value
  | .func n name span params _ body _ =>
    .declare name (.func n.record) span ++ .enclose (.func n.record)
      (outlineEach (.param n.record) 0 (params.map labelOfParam) ++ match body with
        | .block b stmts => .record (.block b.record) ++ outlineStmts stmts
        | e => outlineExpr e)
  | .typeDecl n _ name span fields variants methods =>
    .declare name (.type n.record) span ++ .enclose (.type n.record)
      (outlineEach (.field n.record) 0 (fields.map labelOfMember) ++
        (outlineEach (.variant n.record) 0 (variants.map labelOfMember) ++ outlineStmts methods))
  | .impl n _ _ methods => .enclose (.impl n.record) (outlineStmts methods)
  | .expr _ e _ => outlineExpr e
  | .jump _ _ value => outlineExpr value

def outlineStmts : List Stmt → Outline
  | [] => .empty
  | s :: ss => outlineStmt s ++ outlineStmts ss

def outlineExpr : Expr → Outline
  | .absent _ | .lost | .bare _ _ | .ident _ _ | .literal _ _ _ => .empty
  | .binary _ _ left right => outlineExpr left ++ outlineExpr right
  | .unary _ _ operand => outlineExpr operand
  | .ref _ _ value => outlineExpr value
  | .deref _ value => outlineExpr value
  | .call _ callee args => outlineExpr callee ++ outlineExprs args
  | .index _ target index => outlineExpr target ++ outlineExpr index
  | .field _ target _ => outlineExpr target
  | .array _ elems _ => outlineExprs elems
  | .cast _ value _ => outlineExpr value
  | .block n stmts => .enclose (.block n.record) (outlineStmts stmts)
  | .ifElse _ cond body arms => outlineExpr cond ++ (outlineExpr body ++ outlineArms arms)
  | .whileLoop _ cond body => outlineExpr cond ++ outlineExpr body
  | .forLoop n binding span iter body =>
    outlineExpr iter ++ .enclose (.loop n.record)
      (.declare binding (.loop n.record) span ++ outlineExpr body)

def outlineExprs : List Expr → Outline
  | [] => .empty
  | e :: es => outlineExpr e ++ outlineExprs es

def outlineArms : List Arm → Outline
  | [] => .empty
  | .mk _ cond body _ :: arms => outlineExpr cond ++ (outlineExpr body ++ outlineArms arms)

end

def outlineBody : Expr → Outline
  | .block b stmts => .record (.block b.record) ++ outlineStmts stmts
  | e => outlineExpr e

def outlineInside (r : PayloadId) (params : List ParamForm) (body : Expr) : Outline :=
  outlineEach (.param r) 0 (params.map labelOfParam) ++ outlineBody body

theorem outlineStmt_func (n : StmtNode) (name : NameId) (nameSpan : Span) (params : List ParamForm)
    (result : TypeExpr) (body : Expr) (modifier : Modifier) :
    outlineStmt (.func n name nameSpan params result body modifier) =
      .declare name (.func n.record) nameSpan ++
        (outlineInside n.record params body).enclose (.func n.record) := by
  cases body <;> rfl

def outlineLoop (r : PayloadId) (binding : NameId) (span : Span) (body : Expr) : Outline :=
  .declare binding (.loop r) span ++ outlineExpr body

def outlineType (r : PayloadId) (fields variants : List MemberForm) (methods : List Stmt) :
    Outline :=
  outlineEach (.field r) 0 (fields.map labelOfMember) ++
    (outlineEach (.variant r) 0 (variants.map labelOfMember) ++ outlineStmts methods)

/-! ## Uses -/

inductive Mention
  | value (n : ExprNode)
  | callee (call : PayloadId) (n : ExprNode)
  | type (n : TypeNode)

namespace Mention

def span : Mention → Span
  | value n | callee _ n => n.span
  | type n => n.span

/-- What a use asks for, as messages say it. -/
def what : Mention → Text
  | value _ => "value"
  | callee _ _ => "function"
  | type _ => "type"

end Mention

structure Use where
  mention : Mention
  name : NameId
  /-- The scopes around it, innermost first. -/
  frames : List Frame
  /-- The variables that are completed before it. -/
  completed : List Site

def latest? (name : NameId) (bs : List Binder) : Option Site :=
  ((bs.filter fun b => b.1 == name).map Prod.snd).getLast?

namespace Use

/-- Whether a binding can be meant: a variable has to be completed. -/
def sees (u : Use) (s : Site) : Bool := s.kind != .var || u.completed.contains s

def visible (u : Use) (f : Frame) : List Binder :=
  match u.mention with
  | .type _ => f.types
  | _ => f.values.filter fun b => u.sees b.2

def site? (u : Use) : Option Site := u.frames.findSome? fun f => latest? u.name (u.visible f)

/-- All functions with the name of a use, innermost and newest first. -/
def functions (u : Use) : List Site :=
  u.frames.flatMap fun f =>
    ((f.values.filter fun b => b.1 == u.name && b.2.kind == .function).map Prod.snd).reverse

def fault (names : NameTable) (u : Use) : Fault :=
  .error .notFoundInScope u.mention.span
    ("no " ++ u.mention.what ++ " named '" ++ names.display u.name ++ "' in scope")

theorem getLast?_filter_of_pos {α : Type} {p : α → Bool} {xs : List α} {x : α}
    (hlast : xs.getLast? = some x) (hp : p x = true) : (xs.filter p).getLast? = some x := by
  obtain ⟨ys, rfl⟩ := List.getLast?_eq_some_iff.1 hlast
  rw [filter_append, filter_cons_of_pos hp, filter_nil, List.getLast?_concat]

private def named (u : Use) (f : Frame) : List Binder :=
  (f.values.filter fun b => u.sees b.2).filter fun b => b.1 == u.name

/-- Functions are always visible, so the functions with a name are found among what is visible. -/
private theorem filter_named (u : Use) (f : Frame) :
    (u.named f).filter (fun b => b.2.kind == .function) =
      f.values.filter fun b => b.1 == u.name && b.2.kind == .function := by
  rw [named, filter_filter, filter_filter]
  refine filter_congr fun b _ => ?_
  by_cases hkind : b.2.kind = .function
  · simp [sees, hkind]
  · simp [beq_eq_false_iff_ne.2 hkind]

/-- A use that means a function means the first of the functions with its name: an inner scope
without a visible binding has no function either. -/
theorem head?_functions {u : Use} {s : Site} (hvalue : ∀ n, u.mention ≠ .type n)
    (h : u.site? = some s) (hs : s.kind = .function) : u.functions.head? = some s := by
  have hvisible : ∀ f, u.visible f = f.values.filter fun b => u.sees b.2 := fun f => by
    unfold visible
    split
    · exact absurd ‹_› (hvalue _)
    · rfl
  unfold site? at h
  unfold functions
  generalize u.frames = fs at h ⊢
  induction fs with
  | nil => cases h
  | cons f fs ih =>
    have hnamed : latest? u.name (u.visible f) = ((u.named f).map Prod.snd).getLast? := by
      rw [latest?, hvisible, named]
    rw [flatMap_cons, List.head?_append, List.head?_reverse, ← filter_named]
    rw [List.findSome?_cons, hnamed] at h
    cases hlast : (u.named f).getLast? with
    | none =>
      -- nothing visible here: the scopes outside decide
      rw [List.getLast?_eq_none_iff.1 hlast] at h ⊢
      exact ih h
    | some b =>
      rw [List.getLast?_map, hlast] at h
      cases h
      rw [List.getLast?_map, getLast?_filter_of_pos hlast (by simpa using hs)]
      rfl

end Use

section Uses

variable (env : List Frame) (done : List Site)

def usesType : TypeExpr → List Use
  | .absent _ | .lost => []
  | .name n name => [⟨.type n, name, env, done⟩]
  | .array _ elem _ | .ref _ elem _ | .pointer _ elem | .optional _ elem | .unknown _ elem =>
    usesType elem

end Uses

mutual

/-- The names used in a statement, in program order. The types of a function's head and those that
an implementation names stand outside the scope that is opened. -/
def usesStmt (env : List Frame) (done : List Site) : Stmt → List Use
  | .absent _ | .lost | .bare _ _ => []
  | .var _ _ _ type value _ => usesType env done type ++ usesExpr env done value
  | .assign _ target value =>
    usesExpr env done target ++ usesExpr env (done ++ (outlineExpr target).completed) value
  | .func n _ _ params result body _ =>
    let inside := (outlineInside n.record params body).frame (.func n.record) :: env
    params.flatMap (fun p => usesType env done p.type) ++ (usesType env done result ++
      match body with
      | .block _ stmts => usesStmts inside done stmts
      | e => usesExpr inside done e)
  | .typeDecl n _ _ _ fields variants methods =>
    let inside := (outlineType n.record fields variants methods).frame (.type n.record) :: env
    fields.flatMap (fun m => usesType inside done m.type) ++
      (variants.flatMap (fun m => usesType inside done m.type) ++ usesStmts inside done methods)
  | .impl n trait target methods =>
    usesType env done trait ++ (usesType env done target ++
      usesStmts ((outlineStmts methods).frame (.impl n.record) :: env) done methods)
  | .expr _ e _ => usesExpr env done e
  | .jump _ _ value => usesExpr env done value

def usesStmts (env : List Frame) (done : List Site) : List Stmt → List Use
  | [] => []
  | s :: ss => usesStmt env done s ++ usesStmts env (done ++ (outlineStmt s).completed) ss

def usesExpr (env : List Frame) (done : List Site) : Expr → List Use
  | .absent _ | .lost | .bare _ _ | .literal _ _ _ => []
  | .ident n name => [⟨.value n, name, env, done⟩]
  | .binary _ _ left right =>
    usesExpr env done left ++ usesExpr env (done ++ (outlineExpr left).completed) right
  | .unary _ _ operand => usesExpr env done operand
  | .ref _ _ value => usesExpr env done value
  | .deref _ value => usesExpr env done value
  | .call n callee args =>
    (match callee with
      | .ident c name => [⟨.callee n.record c, name, env, done⟩]
      | e => usesExpr env done e) ++
      usesExprs env (done ++ (outlineExpr callee).completed) args
  | .index _ target index =>
    usesExpr env done target ++ usesExpr env (done ++ (outlineExpr target).completed) index
  | .field _ target _ => usesExpr env done target
  | .array _ elems elemType => usesType env done elemType ++ usesExprs env done elems
  | .cast _ value type =>
    usesExpr env done value ++ usesType env (done ++ (outlineExpr value).completed) type
  | .block n stmts => usesStmts ((outlineStmts stmts).frame (.block n.record) :: env) done stmts
  | .ifElse _ cond body arms =>
    usesExpr env done cond ++ (usesExpr env (done ++ (outlineExpr cond).completed) body ++
      usesArms env (done ++ (outlineExpr cond).completed ++ (outlineExpr body).completed) arms)
  | .whileLoop _ cond body =>
    usesExpr env done cond ++ usesExpr env (done ++ (outlineExpr cond).completed) body
  | .forLoop n binding span iter body =>
    usesExpr env done iter ++
      usesExpr ((outlineLoop n.record binding span body).frame (.loop n.record) :: env)
        (done ++ (outlineExpr iter).completed ++ [.loop n.record]) body

def usesExprs (env : List Frame) (done : List Site) : List Expr → List Use
  | [] => []
  | e :: es => usesExpr env done e ++ usesExprs env (done ++ (outlineExpr e).completed) es

def usesArms (env : List Frame) (done : List Site) : List Arm → List Use
  | [] => []
  | .mk _ cond body _ :: arms =>
    usesExpr env done cond ++ (usesExpr env (done ++ (outlineExpr cond).completed) body ++
      usesArms env (done ++ (outlineExpr cond).completed ++ (outlineExpr body).completed) arms)

end

def usesBody (env : List Frame) (done : List Site) : Expr → List Use
  | .block _ stmts => usesStmts env done stmts
  | e => usesExpr env done e

def usesCallee (env : List Frame) (done : List Site) (call : PayloadId) : Expr → List Use
  | .ident c name => [⟨.callee call c, name, env, done⟩]
  | e => usesExpr env done e

section Uses

variable (env : List Frame) (done : List Site)

theorem usesStmt_func (n : StmtNode) (name : NameId) (nameSpan : Span) (params : List ParamForm)
    (result : TypeExpr) (body : Expr) (modifier : Modifier) :
    usesStmt env done (.func n name nameSpan params result body modifier) =
      params.flatMap (fun p => usesType env done p.type) ++ (usesType env done result ++
        usesBody ((outlineInside n.record params body).frame (.func n.record) :: env) done
          body) := by
  cases body <;> rfl

theorem usesExpr_call (n : ExprNode) (callee : Expr) (args : List Expr) :
    usesExpr env done (.call n callee args) = usesCallee env done n.record callee ++
      usesExprs env (done ++ (outlineExpr callee).completed) args := by
  cases callee <;> rfl

end Uses

/-! ## Whole programs -/

/-- The identifiers of names that are added one after the other. -/
def internAll (names : NameTable) : List String → List NameId
  | [] => []
  | a :: as => (names.intern a).2 :: internAll (names.intern a).1 as

/-- The types that every unit knows, as the names of a unit call them. -/
def builtinTypes (names : NameTable) : List Binder :=
  (internAll names Scope.Table.preludeNames).zipIdx.map fun x => (x.1, .builtin x.2)

/-- All that a unit declares itself. -/
abbrev outline (t : Tree) : Outline := outlineStmts t.program

/-- All declarations of a unit in program order, the built-in types first. -/
def items (t : Tree) : List Item :=
  (builtinTypes t.names).map (fun b => ⟨none, b.1, b.2, .zero⟩) ++ (outline t).items

def rootFrame (t : Tree) : Frame :=
  let o := outline t
  ⟨.root, o.values, builtinTypes t.names ++ o.types⟩

def uses (t : Tree) : List Use := usesStmts [rootFrame t] [] t.program

/-- A field of a record that a use is written into. -/
inductive Place
  | ident (r : PayloadId)
  | call (r : PayloadId)
  | type (i : TypeExprId)
deriving DecidableEq

def Mention.places : Mention → List Place
  | value n => [.ident n.record]
  | callee call n => [.ident n.record, .call call]
  | type n => [.type n.id]

def isWholeType : TypeExpr → Bool
  | .lost => false
  | .absent _ | .name _ _ => true
  | .array _ elem _ | .ref _ elem _ | .pointer _ elem | .optional _ elem | .unknown _ elem =>
    isWholeType elem

mutual

/-- Whether a statement and everything in it is really there: no table was left out and every node
has a record of a known kind. Children may be missing. -/
def isWholeStmt : Stmt → Bool
  | .lost | .bare _ _ => false
  | .absent _ => true
  | .var _ _ _ type value _ => isWholeType type && isWholeExpr value
  | .assign _ target value => isWholeExpr target && isWholeExpr value
  | .func _ _ _ params result body _ =>
    params.all (fun p => isWholeType p.type) && isWholeType result && isWholeExpr body
  | .typeDecl _ _ _ _ fields variants methods =>
    fields.all (fun m => isWholeType m.type) && variants.all (fun m => isWholeType m.type) &&
      areWholeStmts methods
  | .impl _ trait target methods =>
    isWholeType trait && isWholeType target && areWholeStmts methods
  | .expr _ e _ => isWholeExpr e
  | .jump _ _ value => isWholeExpr value

def areWholeStmts : List Stmt → Bool
  | [] => true
  | s :: ss => isWholeStmt s && areWholeStmts ss

def isWholeExpr : Expr → Bool
  | .lost | .bare _ _ => false
  | .absent _ | .ident _ _ | .literal _ _ _ => true
  | .binary _ _ left right => isWholeExpr left && isWholeExpr right
  | .unary _ _ operand => isWholeExpr operand
  | .ref _ _ value => isWholeExpr value
  | .deref _ value => isWholeExpr value
  | .call _ callee args => isWholeExpr callee && areWholeExprs args
  | .index _ target index => isWholeExpr target && isWholeExpr index
  | .field _ target _ => isWholeExpr target
  | .array _ elems elemType => areWholeExprs elems && isWholeType elemType
  | .cast _ value type => isWholeExpr value && isWholeType type
  | .block _ stmts => areWholeStmts stmts
  | .ifElse _ cond body arms => isWholeExpr cond && isWholeExpr body && areWholeArms arms
  | .whileLoop _ cond body => isWholeExpr cond && isWholeExpr body
  | .forLoop _ _ _ iter body => isWholeExpr iter && isWholeExpr body

def areWholeExprs : List Expr → Bool
  | [] => true
  | e :: es => isWholeExpr e && areWholeExprs es

def areWholeArms : List Arm → Bool
  | [] => true
  | .mk _ cond body _ :: arms => isWholeExpr cond && isWholeExpr body && areWholeArms arms

end

/-- A tree that describes a program: finite, without unknown nodes, and no node is reached twice. -/
structure WellFormed (t : Tree) : Prop where
  whole : areWholeStmts t.program = true
  sites : (outline t).sites.Nodup
  regions : (Region.root :: (outline t).regions).Nodup
  places : ((uses t).flatMap fun u => u.mention.places).Nodup

instance (t : Tree) : Decidable (WellFormed t) :=
  decidable_of_iff (_ ∧ _ ∧ _ ∧ _) ⟨fun ⟨h1, h2, h3, h4⟩ => ⟨h1, h2, h3, h4⟩,
    fun ⟨h1, h2, h3, h4⟩ => ⟨h1, h2, h3, h4⟩⟩

end UnitCheck.Resolution
