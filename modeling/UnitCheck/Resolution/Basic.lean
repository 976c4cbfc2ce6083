import UnitCheck.Scope.Impls
import UnitCheck.Scope.Table
import UnitCheck.Syntax.Program

/-!
# The state of name resolution

Name resolution walks a program twice. The first walk makes declarations and scopes, the second one
points uses at declarations. What the walks find is written into the annotation fields of the tree,
which is all that joins them.
-/

namespace UnitCheck.Resolution

open Syntax

structure State where
  tree : Tree
  table : Scope.Table
  impls : Implementations
  /-- Variables whose declaring statement lies behind. -/
  completed : List DeclId

abbrev Resolve := Run State

def onTable {α : Type} (a : Run Scope.Table α) : Resolve α := fun s =>
  match a s.table with
  | .ok x t => .ok x { s with table := t }
  | .error e t => .error e { s with table := t }

def ask {α : Type} (f : Scope.Table → Except Abort α) : Resolve α := do
  match f (← get).table with
  | .ok a => return a
  | .error e => throw e

def report (f : Fault) : Resolve Unit := onTable (Scope.Table.report f)

def display (name : NameId) : Resolve Text := do
  return (← get).table.names.display name

/-! ### Annotations -/

def modifyStmts (f : Stmts → Stmts) : Resolve Unit :=
  modify fun s => { s with tree := { s.tree with stmts := f s.tree.stmts } }

def modifyExprs (f : Exprs → Exprs) : Resolve Unit :=
  modify fun s => { s with tree := { s.tree with exprs := f s.tree.exprs } }

def annotateVar (r : PayloadId) (f : VarRecord → VarRecord) : Resolve Unit :=
  modifyStmts fun s => { s with vars := s.vars.modify r.index f }

def annotateFunc (r : PayloadId) (f : FuncRecord → FuncRecord) : Resolve Unit :=
  modifyStmts fun s => { s with funcs := s.funcs.modify r.index f }

def annotateTypeDecl (r : PayloadId) (f : TypeDeclRecord → TypeDeclRecord) : Resolve Unit :=
  modifyStmts fun s => { s with typeDecls := s.typeDecls.modify r.index f }

def annotateImpl (r : PayloadId) (f : ImplRecord → ImplRecord) : Resolve Unit :=
  modifyStmts fun s => { s with impls := s.impls.modify r.index f }

def annotateIdent (r : PayloadId) (decl : DeclId) : Resolve Unit :=
  modifyExprs fun e => { e with idents := e.idents.modify r.index ({ · with decl }) }

def annotateCall (r : PayloadId) (f : CallRecord → CallRecord) : Resolve Unit :=
  modifyExprs fun e => { e with calls := e.calls.modify r.index f }

def annotateBlock (r : PayloadId) (scope : Option ScopeId) : Resolve Unit :=
  modifyExprs fun e => { e with blocks := e.blocks.modify r.index ({ · with scope }) }

def annotateFor (r : PayloadId) (f : ForRecord → ForRecord) : Resolve Unit :=
  modifyExprs fun e => { e with fors := e.fors.modify r.index f }

def annotateType (i : TypeExprId) (decl : DeclId) : Resolve Unit :=
  modify fun s =>
    { s with tree := { s.tree with types := s.tree.types.modify i.index ({ · with decl }) } }

end UnitCheck.Resolution
