import UnitCheck.Syntax.Program

/-!
# Spans of a tree

A tree that a parser built has spans that nest: no statement or expression has an empty span, and
none reaches out of the one that it belongs to. `Tree.spanError?` finds the first node, in program
order, that breaks this.

The unit itself has no span, and neither has a node that lies inside of nothing; everything lies
within an unknown span.
-/

namespace UnitCheck.Syntax

inductive SpanError
  | noStmt (id : StmtId)
  | noExpr (id : ExprId)
  | emptyStmt (kind : StmtKind) (span : Span)
  | emptyExpr (kind : ExprKind) (span : Span)
  | stmtOutside (kind : StmtKind) (span parent : Span)
  | exprOutside (kind : ExprKind) (span parent : Span)
deriving DecidableEq

def SpanError.message : SpanError → Text
  | noStmt i => "nil stmt for id=" ++ Text.ofNat i.index
  | noExpr i => "nil expr for id=" ++ Text.ofNat i.index
  | emptyStmt k s => "empty " ++ k.toText ++ " stmt span: " ++ s.toText
  | emptyExpr k s => "empty " ++ k.toText ++ " expr span: " ++ s.toText
  | stmtOutside k s p =>
    k.toText ++ " stmt span " ++ s.toText ++ " is outside parent span " ++ p.toText
  | exprOutside k s p =>
    k.toText ++ " expr span " ++ s.toText ++ " is outside parent span " ++ p.toText

abbrev SpanCheck := Except Abort (Option SpanError)

/-- Goes on only if nothing was found. -/
def SpanCheck.andThen (a : SpanCheck) (b : Unit → SpanCheck) : SpanCheck :=
  match a with
  | .ok none => b ()
  | found => found

def stmtSpan (kind : StmtKind) (span parent : Span) (inside : Unit → SpanCheck) : SpanCheck :=
  if span.isEmpty then .ok (some (.emptyStmt kind span))
  else if !span.within parent then .ok (some (.stmtOutside kind span parent))
  else inside ()

def exprSpan (kind : ExprKind) (span parent : Span) (inside : Unit → SpanCheck) : SpanCheck :=
  if span.isEmpty then .ok (some (.emptyExpr kind span))
  else if !span.within parent then .ok (some (.exprOutside kind span parent))
  else inside ()

mutual

def Stmt.spanError? (parent : Span) : Stmt → SpanCheck
  | .absent i => .ok (some (.noStmt i))
  | .lost => .error .malformed
  | .bare n kind => stmtSpan kind n.span parent fun _ =>
    if kind.isDeclared then .error .malformed else .ok none
  | .var n _ _ _ value _ => stmtSpan .var n.span parent fun _ => value.spanError? n.span
  | .assign n target value => stmtSpan .assign n.span parent fun _ =>
    SpanCheck.andThen (target.spanError? n.span) fun _ => value.spanError? n.span
  | .func n _ _ _ _ body _ => stmtSpan .func n.span parent fun _ => body.spanError? n.span
  | .typeDecl n _ _ _ _ _ methods => stmtSpan .typeDecl n.span parent fun _ =>
    stmtsSpanError? n.span methods
  | .impl n _ _ methods => stmtSpan .impl n.span parent fun _ => stmtsSpanError? n.span methods
  | .expr n e _ => stmtSpan .expr n.span parent fun _ => e.spanError? n.span
  | .jump n kind value => stmtSpan kind.kind n.span parent fun _ => value.spanError? n.span

def stmtsSpanError? (parent : Span) : List Stmt → SpanCheck
  | [] => .ok none
  | s :: ss => SpanCheck.andThen (s.spanError? parent) fun _ => stmtsSpanError? parent ss

def Expr.spanError? (parent : Span) : Expr → SpanCheck
  | .absent i => .ok (if i.isValid then some (.noExpr i) else none)
  | .lost => .error .malformed
  | .bare n kind => exprSpan kind n.span parent fun _ =>
    if kind = .ident ∨ kind = .literal ∨ ¬ kind.isDeclared then .ok none else .error .malformed
  | .ident n _ => exprSpan .ident n.span parent fun _ => .ok none
  | .literal n _ _ => exprSpan .literal n.span parent fun _ => .ok none
  | .binary n _ l r => exprSpan .binary n.span parent fun _ =>
    SpanCheck.andThen (l.spanError? n.span) fun _ => r.spanError? n.span
  | .unary n _ e => exprSpan .unary n.span parent fun _ => e.spanError? n.span
  | .ref n _ e => exprSpan .ref n.span parent fun _ => e.spanError? n.span
  | .deref n e => exprSpan .deref n.span parent fun _ => e.spanError? n.span
  | .call n callee args => exprSpan .call n.span parent fun _ =>
    SpanCheck.andThen (callee.spanError? n.span) fun _ => exprsSpanError? n.span args
  | .index n target index => exprSpan .index n.span parent fun _ =>
    SpanCheck.andThen (target.spanError? n.span) fun _ => index.spanError? n.span
  | .field n target _ => exprSpan .field n.span parent fun _ => target.spanError? n.span
  | .array n elems _ => exprSpan .array n.span parent fun _ => exprsSpanError? n.span elems
  | .cast n value _ => exprSpan .cast n.span parent fun _ => value.spanError? n.span
  | .block n stmts => exprSpan .block n.span parent fun _ => stmtsSpanError? n.span stmts
  | .ifElse n cond body arms => exprSpan .ifElse n.span parent fun _ =>
    SpanCheck.andThen (cond.spanError? n.span) fun _ =>
      SpanCheck.andThen (body.spanError? n.span) fun _ => armsSpanError? n.span arms
  | .whileLoop n cond body => exprSpan .whileLoop n.span parent fun _ =>
    SpanCheck.andThen (cond.spanError? n.span) fun _ => body.spanError? n.span
  | .forLoop n _ _ iter body => exprSpan .forLoop n.span parent fun _ =>
    SpanCheck.andThen (iter.spanError? n.span) fun _ => body.spanError? n.span

def exprsSpanError? (parent : Span) : List Expr → SpanCheck
  | [] => .ok none
  | e :: es => SpanCheck.andThen (e.spanError? parent) fun _ => exprsSpanError? parent es

def armsSpanError? (parent : Span) : List Arm → SpanCheck
  | [] => .ok none
  | .mk _ cond body _ :: arms =>
    SpanCheck.andThen (cond.spanError? parent) fun _ =>
      SpanCheck.andThen (body.spanError? parent) fun _ => armsSpanError? parent arms

end

def Tree.spanError? (t : Tree) : SpanCheck := stmtsSpanError? .zero t.program

end UnitCheck.Syntax
