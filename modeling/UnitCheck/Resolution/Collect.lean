import UnitCheck.Resolution.Basic

/-!
# Collecting declarations

The first walk: every declaring place gets a declaration, bound in the scope that it stands in, and
every function, type, implementation, block and loop gets a scope. Uses are not looked at.

The body of a function shares the scope of its parameters. A variable without a modifier takes that
of its scope.
-/

namespace UnitCheck.Resolution

open Syntax

def declare (kind : DeclKind) (name : NameId) (span : Span) (modifier : Modifier) :
    Resolve DeclId :=
  onTable (Scope.Table.declare (.fresh kind name span modifier))

def modifyDecl (i : DeclId) (f : Decl → Decl) : Resolve Unit :=
  modify fun s => { s with table := { s.table with decls := s.table.decls.modify i f } }

def openScope (kind : ScopeKind) (modifier : Modifier) (span : Span) : Resolve ScopeId :=
  onTable (Scope.Table.push kind modifier span)

def closeScope : Resolve Unit := onTable Scope.Table.pop

def currentModifier : Resolve Modifier := onTable Scope.Table.currentModifier

def setDecl {α : Type} (set : α → DeclId → α) (i : Nat) (d : DeclId) :
    Option (List α) → Option (List α) :=
  Option.map fun xs => xs.modify i (set · d)

def collectParams (r : PayloadId) (owner : DeclId) : Nat → List ParamForm → Resolve Unit
  | _, [] => pure ()
  | i, p :: ps => do
    let d ← declare .param p.name p.span p.modifier
    annotateFunc r fun f =>
      { f with params := setDecl (fun p d => { p with decl := d }) i d f.params }
    modifyDecl d ({ · with owner })
    collectParams r owner (i + 1) ps

def collectFields (r : PayloadId) (owner : DeclId) : Nat → List MemberForm → Resolve Unit
  | _, [] => pure ()
  | i, m :: ms => do
    let d ← declare .field m.name m.span .default
    annotateTypeDecl r fun t =>
      { t with fields := setDecl (fun m d => { m with decl := d }) i d t.fields }
    modifyDecl d ({ · with owner })
    collectFields r owner (i + 1) ms

def collectVariants (r : PayloadId) (owner : DeclId) : Nat → List MemberForm → Resolve Unit
  | _, [] => pure ()
  | i, m :: ms => do
    let d ← declare .variant m.name m.span .default
    annotateTypeDecl r fun t =>
      { t with variants := setDecl (fun m d => { m with decl := d }) i d t.variants }
    modifyDecl d ({ · with owner })
    collectVariants r owner (i + 1) ms

mutual

/-- Collects a statement; `owner` is the type around a method. -/
def collectStmt (owner : DeclId) : Stmt → Resolve Unit
  | .absent _ => pure ()
  | .lost => throw .malformed
  | .bare _ kind => if kind.isDeclared then throw .malformed else pure ()
  | .var n name nameSpan _ value modifier => do
    collectExpr value
    let modifier ← if modifier = .default then currentModifier else pure modifier
    let d ← declare .var name nameSpan modifier
    annotateVar n.record ({ · with decl := d })
    modifyDecl d ({ · with stmt := n.id })
  | .assign _ target value => do
    collectExpr target
    collectExpr value
  | .func n name nameSpan params _ body modifier => do
    let d ← declare .function name nameSpan modifier
    annotateFunc n.record ({ · with decl := d })
    modifyDecl d ({ · with stmt := n.id, owner })
    let scope ← openScope .function modifier n.span
    annotateFunc n.record ({ · with scope := some scope })
    collectParams n.record d 0 params
    match body with
    | .block b stmts => do
      annotateBlock b.record (some scope)
      collectStmts 0 stmts
    | e => collectExpr e
    closeScope
  | .typeDecl n kind name nameSpan fields variants methods => do
    let d ← declare .type name nameSpan .default
    annotateTypeDecl n.record ({ · with decl := d })
    modifyDecl d ({ · with stmt := n.id, typeKind := kind })
    let scope ← openScope .type .default n.span
    annotateTypeDecl n.record ({ · with scope := some scope })
    collectFields n.record d 0 fields
    collectVariants n.record d 0 variants
    collectStmts d methods
    closeScope
  | .impl n _ _ methods => do
    let scope ← openScope .impl .default n.span
    annotateImpl n.record ({ · with scope := some scope })
    collectStmts 0 methods
    closeScope
  | .expr _ e _ => collectExpr e
  | .jump _ _ value => collectExpr value

def collectStmts (owner : DeclId) : List Stmt → Resolve Unit
  | [] => pure ()
  | s :: ss => do
    collectStmt owner s
    collectStmts owner ss

def collectExpr : Expr → Resolve Unit
  | .absent _ => pure ()
  | .lost => throw .malformed
  | .bare _ kind =>
    if kind = .ident ∨ kind = .literal ∨ ¬ kind.isDeclared then pure () else throw .malformed
  | .ident .. | .literal .. => pure ()
  | .binary _ _ left right => do
    collectExpr left
    collectExpr right
  | .unary _ _ operand => collectExpr operand
  | .ref _ _ value => collectExpr value
  | .deref _ value => collectExpr value
  | .call _ callee args => do
    collectExpr callee
    collectExprs args
  | .index _ target index => do
    collectExpr target
    collectExpr index
  | .field _ target _ => collectExpr target
  | .array _ elems _ => collectExprs elems
  | .cast _ value _ => collectExpr value
  | .block n stmts => do
    let scope ← openScope .block (← currentModifier) n.span
    annotateBlock n.record (some scope)
    collectStmts 0 stmts
    closeScope
  | .ifElse _ cond body arms => do
    collectExpr cond
    collectExpr body
    collectArms arms
  | .whileLoop _ cond body => do
    collectExpr cond
    collectExpr body
  | .forLoop n binding bindingSpan iter body => do
    collectExpr iter
    let scope ← openScope .block (← currentModifier) n.span
    annotateFor n.record ({ · with scope := some scope })
    let d ← declare .var binding bindingSpan (← currentModifier)
    annotateFor n.record ({ · with decl := d })
    collectExpr body
    closeScope

def collectExprs : List Expr → Resolve Unit
  | [] => pure ()
  | e :: es => do
    collectExpr e
    collectExprs es

def collectArms : List Arm → Resolve Unit
  | [] => pure ()
  | .mk _ cond body _ :: arms => do
    collectExpr cond
    collectExpr body
    collectArms arms

end

end UnitCheck.Resolution
