import UnitCheck.Proofs.Lowering.Calls
import UnitCheck.Proofs.Lowering.Parts
import UnitCheck.Syntax.Build

/-!
# Guarded expressions

The condition of a loop is run again and again, that of an `else if` only if the conditions before
it did not hold, and the right operand of `&&` and `||` only if the left one does not decide.
Lowered code keeps such an expression inside of the loop, the branches or the operator, with all
calls that stay within it. Calls in an operand that is put into a slot do not stay: the line that
fills the slot stands ahead of everything, so that in `while *g() {}` the call is made once and
before the loop. -/

namespace UnitCheck.Syntax

/-- The conditions of arms up to a plain `else`. -/
def armGuards : List Arm → List Expr
  | [] => []
  | .mk kind cond _ _ :: arms => if kind = .plain then [] else cond :: armGuards arms

/-- The operands of an expression that are not simply run once with it. -/
def Expr.guards : Expr → List Expr
  | .whileLoop _ cond _ => [cond]
  | .ifElse _ _ _ arms => armGuards arms
  | .binary _ op _ right => if op.opClass = .logical then [right] else []
  | _ => []

theorem within_armGuards {g : Expr} {n : ExprNode} {arms : List Arm} (hg : g ∈ armGuards arms)
    (hn : n ∈ (callsExpr g).within) : n ∈ (callsArms arms).within := by
  induction arms with
  | nil => cases hg
  | cons arm arms ih =>
    obtain ⟨kind, cond, body, span⟩ := arm
    rw [armGuards] at hg
    rw [callsArms]
    split at hg
    · cases hg
    next hkind =>
      rw [if_neg hkind]
      rcases List.mem_cons.1 hg with rfl | hg
      · exact List.mem_append_left _ (List.mem_append_left _ hn)
      · exact List.mem_append_right _ (ih hg)

/-- What stays within a guarded operand stays within the expression. -/
theorem within_guards {e g : Expr} {n : ExprNode} (hg : g ∈ e.guards)
    (hn : n ∈ (callsExpr g).within) : n ∈ (callsExpr e).within := by
  cases e with
  | whileLoop _ cond body =>
    rw [List.mem_singleton.1 hg] at hn
    exact List.mem_append_left _ hn
  | ifElse _ cond body arms =>
    exact List.mem_append_right _ (within_armGuards hg hn)
  | binary _ op left right =>
    rw [Expr.guards] at hg
    split at hg
    · rw [List.mem_singleton.1 hg] at hn
      exact List.mem_append_right _ hn
    · cases hg
  | _ => cases hg

end UnitCheck.Syntax

namespace UnitCheck.Lowering

open Code List Syntax Syntax.Build

/-- A value that an expression with guarded operands becomes. -/
inductive Mirrors : Expr → Value → Prop
  | whileLoop {n : ExprNode} {cond body : Expr} {v : ValueId} {b : BlockId} :
      Mirrors (.whileLoop n cond body) (.whileLoop v b)
  | ifElse {n : ExprNode} {cond body : Expr} {arms : List Arm} {chain : Chain} :
      Mirrors (.ifElse n cond body arms) (.ifElse (some chain))
  | binary {n : ExprNode} {op : BinaryOp} {left right : Expr} {v w : ValueId} :
      Mirrors (.binary n op left right) (.binary op v w)

variable {c : Context} {t : State} {e : Expr} {p q : Pos} {L : List LineId} {v : ValueId}

theorem LowersValue.mirrors (h : LowersValue c t e p q L v) {g : Expr} (hg : g ∈ e.guards) :
    ∃ x, t.module.value? v = some x ∧ Mirrors e x ∧
      e.node?.map Node.span = some (t.module.valueSpan v) := by
  cases e with
  | whileLoop =>
    cases h with
    | whileLoop _ _ hv => exact ⟨_, hv.value?, .whileLoop, congrArg some hv.valueSpan.symm⟩
  | ifElse =>
    cases h with
    | ifElse _ _ _ hv => exact ⟨_, hv.value?, .ifElse, congrArg some hv.valueSpan.symm⟩
  | binary =>
    cases h with
    | binary _ _ hv => exact ⟨_, hv.value?, .binary, congrArg some hv.valueSpan.symm⟩
  | _ => cases hg

/-- The calls that can be reached from a value are those that stay within its expression. -/
theorem LowersValue.reaches_iff (h : LowersValue c t e p q L v) (x : CallSite) :
    (∃ w, t.module.Reaches v w ∧ x ∈ t.module.callAt w) ↔
      x ∈ (callsExpr e).within.map (callSite c) := by
  have hcalls : t.module.Calls [v] ((callsExpr e).within.map (callSite c)) := h.calls.2
  constructor
  · rintro ⟨w, hw, hx⟩
    exact hcalls.mem_of_reaches mem_cons_self hw hx
  · intro hx
    obtain ⟨u, hu, hreach⟩ := hcalls.reaches hx
    rw [mem_singleton.1 hu] at hreach
    exact hreach

/-- **Guarded calls stay guarded, unless their operand is put into a slot.** Take a loop, an `if`
with arms or a `&&` or `||` in a complete and well-formed tree, and one of its guarded operands: the
condition of the loop or of an `else if`, or the right operand. The expression becomes a loop,
branches or an operator at the same place, and every call in the operand can be reached from there,
through operands, places, blocks and branches, except for those that stand in an operand which is
put into a slot ahead, and for those that lowering drops. Calls in functions, types and
implementations that are declared inside of the operand are not among them (`postorder`), since
these become items of their own. The calls that can be reached are exactly those that stay within
the expression. -/
theorem guarded_calls_reachable (tree : Tree) (hwf : Resolution.WellFormed tree)
    (hcomplete : areCompleteStmts tree.program = true) (e g : Expr)
    (he : .expr e ∈ partsProgram tree.program) (hg : g ∈ e.guards) :
    ∃ r out v x, Resolution.resolve tree = .ok r ∧ lower r.tree r.table.decls = .ok out ∧
      out.module.value? v = some x ∧ Mirrors e x ∧
      e.node?.map Node.span = some (out.module.valueSpan v) ∧
      (∀ n ∈ postorder g, n ∈ (callsExpr g).ahead ∨ n ∈ dropped g ∨ ∃ w, out.module.Reaches v w ∧
        callSite ⟨r.tree, r.table.decls⟩ n ∈ out.module.callAt w) ∧
      ∀ y, (∃ w, out.module.Reaches v w ∧ y ∈ out.module.callAt w) ↔
        y ∈ (callsExpr e).within.map (callSite ⟨r.tree, r.table.decls⟩) := by
  obtain ⟨r, s, hfront⟩ := exists_front hwf hcomplete
  obtain ⟨p, q, L, v, hlowers⟩ := hfront.rules.parts hfront.declared _ he
  obtain ⟨x, hx, hmirrors, hspan⟩ := LowersValue.mirrors hlowers hg
  have hreach := LowersValue.reaches_iff hlowers
  refine ⟨r, _, v, x, hfront.resolved, hfront.lowered, hx, hmirrors, hspan, fun n hn => ?_, hreach⟩
  -- a call of the operand is made ahead of it or within it, or it is dropped
  rcases (accounts g n).1 hn with hmade | hdropped
  · rcases mem_append.1 hmade with hahead | hwithin
    · exact .inl hahead
    · exact .inr (.inr ((hreach _).2 (mem_map_of_mem (within_guards hg hwithin))))
  · exact .inr (.inl hdropped)

/-! ## Two loops

The condition of `while g() {}` stays inside of the loop. In `while *g() {}` the call is put
ahead. -/

/-- `fn g() {}  fn h() { while g() {}; while *g() {} }`. -/
def loops : Tree :=
  let build : Build Unit := do
    pushRoot (← func .zero .zero 1 [] 0 (← block .zero []) .default)
    let cond ← call ⟨1, 10, 13⟩ (← ident .zero 1) []
    let first ← whileLoop ⟨1, 4, 16⟩ cond (← block .zero [])
    let first ← exprStmt .zero first true
    let cond ← deref .zero (← call ⟨1, 25, 28⟩ (← ident .zero 1) [])
    let second ← whileLoop ⟨1, 18, 31⟩ cond (← block .zero [])
    let second ← exprStmt .zero second true
    pushRoot (← func .zero .zero 2 [] 0 (← block .zero [first, second]) .default)
  (build .empty).2

def guardedLoop : Expr :=
  .whileLoop ⟨5, ⟨1, 4, 16⟩, 1⟩ (.call ⟨3, ⟨1, 10, 13⟩, 1⟩ (.ident ⟨2, .zero, 1⟩ 1) [])
    (.block ⟨4, .zero, 2⟩ [])

def hoistedLoop : Expr :=
  .whileLoop ⟨10, ⟨1, 18, 31⟩, 2⟩
    (.deref ⟨8, .zero, 1⟩ (.call ⟨7, ⟨1, 25, 28⟩, 2⟩ (.ident ⟨6, .zero, 2⟩ 1) []))
    (.block ⟨9, .zero, 3⟩ [])

theorem wellFormed_loops : Resolution.WellFormed loops := by decide +kernel

theorem complete_loops : areCompleteStmts loops.program = true := by decide +kernel

theorem program_loops : loops.program =
    [.func ⟨1, .zero, 1⟩ 1 .zero [] (.absent 0) (.block ⟨1, .zero, 1⟩ []) .default,
     .func ⟨4, .zero, 2⟩ 2 .zero [] (.absent 0)
      (.block ⟨11, .zero, 4⟩ [.expr ⟨2, .zero, 1⟩ guardedLoop true,
        .expr ⟨3, .zero, 2⟩ hoistedLoop true]) .default] :=
  rfl

/-- The call in the condition of the first loop can be reached from it. -/
theorem guarded_calls_reachable_loops : guardedLoop.guards.flatMap postorder =
      [⟨3, ⟨1, 10, 13⟩, 1⟩] ∧
    ∃ r out v cond body, Resolution.resolve loops = .ok r ∧ lower r.tree r.table.decls = .ok out ∧
      out.module.value? v = some (.whileLoop cond body) ∧ out.module.valueSpan v = ⟨1, 4, 16⟩ ∧
      ∃ w candidates, out.module.Reaches v w ∧ ⟨⟨1, 10, 13⟩, candidates⟩ ∈ out.module.callAt w := by
  refine ⟨rfl, ?_⟩
  obtain ⟨r, out, v, x, hr, hout, hx, hmirrors, hspan, hcalls, -⟩ := guarded_calls_reachable loops
    wellFormed_loops complete_loops guardedLoop _
      (program_loops ▸ mem_of_getElem? (i := 4) rfl) mem_cons_self
  cases hmirrors
  refine ⟨r, out, v, _, _, hr, hout, hx, (Option.some.inj hspan).symm, ?_⟩
  rcases hcalls ⟨3, ⟨1, 10, 13⟩, 1⟩ mem_cons_self with hahead | hdropped | ⟨w, hw, hcall⟩
  · cases hahead
  · cases hdropped
  · exact ⟨w, _, hw, hcall⟩

/-- No call can be reached from the second loop, although there is one in its condition. -/
theorem hoisted_call_not_reachable : hoistedLoop.guards.flatMap postorder =
      [⟨7, ⟨1, 25, 28⟩, 2⟩] ∧
    ∃ r out v cond body, Resolution.resolve loops = .ok r ∧ lower r.tree r.table.decls = .ok out ∧
      out.module.value? v = some (.whileLoop cond body) ∧ out.module.valueSpan v = ⟨1, 18, 31⟩ ∧
      ∀ w, out.module.Reaches v w → out.module.callAt w = [] := by
  refine ⟨rfl, ?_⟩
  obtain ⟨r, s, hfront⟩ := exists_front wellFormed_loops complete_loops
  obtain ⟨p, q, L, v, hlowers⟩ := hfront.rules.parts hfront.declared (.expr hoistedLoop)
    (program_loops ▸ mem_of_getElem? (i := 6) rfl)
  obtain ⟨x, hx, hmirrors, hspan⟩ := LowersValue.mirrors hlowers mem_cons_self
  cases hmirrors
  refine ⟨r, _, v, _, _, hfront.resolved, hfront.lowered, hx, (Option.some.inj hspan).symm,
    fun w hw => eq_nil_iff_forall_not_mem.2 fun y hy => ?_⟩
  have hmem := (LowersValue.reaches_iff hlowers y).1 ⟨w, hw, hy⟩
  cases hmem

end UnitCheck.Lowering
