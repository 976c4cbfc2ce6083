import UnitCheck.Resolution.Collect

/-!
# Binding uses

The second walk: every use of a name is pointed at the declaration that it means, looking outwards
from the scope that it stands in. Functions, parameters and types are visible in their whole scope;
a variable is visible only behind its declaring statement, and a loop variable in the body of its
loop.

A use without a declaration is a fault and keeps the annotation that it came with.
-/

namespace UnitCheck.Resolution

open Syntax

def State.sees (s : State) (e : Entry) : Bool := e.kind ≠ .var || s.completed.contains e.decl

def complete (d : DeclId) : Resolve Unit :=
  modify fun s => { s with completed := d :: s.completed }

def lookupValue (name : NameId) : Resolve (Option Entry) := do
  let s ← get
  ask fun t => t.lookupValue name s.sees

def notFound (span : Span) (what : Text) (name : NameId) : Resolve Unit := do
  report (.error .notFoundInScope span
    ("no " ++ what ++ " named '" ++ (← display name) ++ "' in scope"))

/-- Walks something inside a scope that was recorded for it, and comes back. -/
def inScope (scope : Option ScopeId) (span : Span) (walk : Resolve Unit) : Resolve Unit := do
  let back := (← get).table.current
  match scope with
  | none =>
    report (.internal span "no scope recorded for node")
    walk
  | some i =>
    let entered ← onTable (Scope.Table.goTo i)
    walk
    if entered then discard (onTable (Scope.Table.goTo back))

def bindType : TypeExpr → Resolve Unit
  | .absent _ => pure ()
  | .lost => throw .malformed
  | .name n name => do
    match ← ask fun t => t.lookupType name with
    | none => notFound n.span "type" name
    | some e => annotateType n.id e.decl
  | .array _ elem _ | .ref _ elem _ | .pointer _ elem | .optional _ elem | .unknown _ elem =>
    bindType elem

/-- The fault of implementing something that is not a trait. -/
def notATrait (span : Span) (shown : Text) (decl? : Option Decl) : Fault :=
  let kind : Text := match decl? with
    | some d => d.typeKind.toText
    | none => "type"
  let f := Fault.error .invalidTypeKind span ("'" ++ shown ++ "' is a " ++ kind ++ ", not a trait")
  match decl? with
  | some d => if d.builtin then f else f.withNote d.span "declared here"
  | none => f

/-- Records a block that implements a trait. Something else than a trait is a fault. -/
def addImplementation (n : StmtNode) (trait target : TypeExpr) : Resolve Unit := do
  let s ← get
  let record? := fun t : TypeExpr => t.node?.bind fun n => s.tree.type? n.id
  match record? trait with
  | none => pure ()
  | some tr =>
    -- a name that was not found has been reported already
    if tr.decl.isValid then
      let decl? := s.table.decls.get? tr.decl
      if decl?.any Decl.isTrait then
        let targetDecl := ((record? target).map TypeRecord.decl).getD 0
        set { s with impls := s.impls.add ⟨tr.decl, target.id, targetDecl, n.id, n.span⟩ }
      else report (notATrait tr.span (← display tr.name) decl?)

/-- Points the callee of a call at its declaration and records all functions that it may mean. -/
def bindNamedCallee (call : PayloadId) (n : ExprNode) (name : NameId) : Resolve Unit := do
  let found := (← ask fun t => t.functions name).map Entry.decl
  annotateCall call fun r =>
    { r with candidates := if found.isEmpty then r.candidates.map fun _ => [] else some found }
  match ← lookupValue name with
  | some e => annotateIdent n.record e.decl
  | none => notFound n.span "function" name

def bindParams : List ParamForm → Resolve Unit
  | [] => pure ()
  | p :: ps => do
    bindType p.type
    bindParams ps

def bindMembers : List MemberForm → Resolve Unit
  | [] => pure ()
  | m :: ms => do
    bindType m.type
    bindMembers ms

mutual

def bindStmt : Stmt → Resolve Unit
  | .absent _ => pure ()
  | .lost => throw .malformed
  | .bare _ kind => if kind.isDeclared then throw .malformed else pure ()
  | .var n _ _ type value _ => do
    bindType type
    bindExpr value
    let r ← Run.need ((← get).tree.stmts.vars.get? n.record.index)
    complete r.decl
  | .assign _ target value => do
    bindExpr target
    bindExpr value
  | .func n _ _ params result body _ => do
    bindParams params
    bindType result
    let r ← Run.need ((← get).tree.stmts.funcs.get? n.record.index)
    inScope r.scope n.span <| match body with
      | .block _ stmts => bindStmts stmts
      | e => bindExpr e
  | .typeDecl n _ _ _ fields variants methods => do
    let r ← Run.need ((← get).tree.stmts.typeDecls.get? n.record.index)
    inScope r.scope n.span do
      bindMembers fields
      bindMembers variants
      bindStmts methods
  | .impl n trait target methods => do
    bindType trait
    bindType target
    addImplementation n trait target
    let r ← Run.need ((← get).tree.stmts.impls.get? n.record.index)
    inScope r.scope n.span (bindStmts methods)
  | .expr _ e _ => bindExpr e
  | .jump _ _ value => bindExpr value

def bindStmts : List Stmt → Resolve Unit
  | [] => pure ()
  | s :: ss => do
    bindStmt s
    bindStmts ss

def bindExpr : Expr → Resolve Unit
  | .absent _ => pure ()
  | .lost => throw .malformed
  | .bare _ kind =>
    if kind = .literal ∨ ¬ kind.isDeclared then pure () else throw .malformed
  | .ident n name => do
    match ← lookupValue name with
    | some e => annotateIdent n.record e.decl
    | none => notFound n.span "value" name
  | .literal .. => pure ()
  | .binary _ _ left right => do
    bindExpr left
    bindExpr right
  | .unary _ _ operand => bindExpr operand
  | .ref _ _ value => bindExpr value
  | .deref _ value => bindExpr value
  | .call n callee args => do
    match callee with
    | .ident c name => bindNamedCallee n.record c name
    | e => bindExpr e
    bindExprs args
  | .index _ target index => do
    bindExpr target
    bindExpr index
  | .field _ target _ => bindExpr target
  | .array _ elems elemType => do
    bindType elemType
    bindExprs elems
  | .cast _ value type => do
    bindExpr value
    bindType type
  | .block n stmts => do
    let r ← Run.need ((← get).tree.exprs.blocks.get? n.record.index)
    inScope r.scope n.span (bindStmts stmts)
  | .ifElse _ cond body arms => do
    bindExpr cond
    bindExpr body
    bindArms arms
  | .whileLoop _ cond body => do
    bindExpr cond
    bindExpr body
  | .forLoop n _ _ iter body => do
    bindExpr iter
    let r ← Run.need ((← get).tree.exprs.fors.get? n.record.index)
    inScope r.scope n.span do
      complete r.decl
      bindExpr body

def bindExprs : List Expr → Resolve Unit
  | [] => pure ()
  | e :: es => do
    bindExpr e
    bindExprs es

def bindArms : List Arm → Resolve Unit
  | [] => pure ()
  | .mk _ cond body _ :: arms => do
    bindExpr cond
    bindExpr body
    bindArms arms

end

/-! ### The whole of it -/

structure Resolved where
  /-- The tree with its annotations. -/
  tree : Tree
  table : Scope.Table
  impls : Implementations
  faults : List Fault

/-- Both walks, one after the other, and a look at the scopes that came of it. -/
def resolveProgram (program : List Stmt) : Resolve Unit := do
  collectStmts 0 program
  let left := (← get).table.current
  if left ≠ .root then
    report (.internal .zero ("collect pass left scope " ++ Text.ofNat left.index ++ " active"))
  discard (onTable (Scope.Table.goTo .root))
  bindStmts program
  match ← ask Scope.Table.validate with
  | none => pure ()
  | some e => report (.internal .zero ("scope tree: " ++ e.message))

def resolve (tree : Tree) : Except Abort Resolved :=
  match resolveProgram tree.program ⟨tree, .initial tree.names, .empty, []⟩ with
  | .ok _ s => .ok ⟨{ s.tree with names := s.table.names }, s.table, s.impls, s.table.faults.toList⟩
  | .error e _ => .error e

end UnitCheck.Resolution
