import UnitCheck.Proofs.Lowering.Calls
import UnitCheck.Proofs.Lowering.Parts
import UnitCheck.Syntax.Build

/-!
# The order of calls in lowered code

Lowered code makes the calls of a function statement by statement, and in each statement first those
that stand in an operand which is put into a slot of its own (`CallOrder`). So the order in which
calls are written is kept where no such operand stands behind a call that stays where it is, and it
is not kept elsewhere: in `f() + *g()` the second call is made first.
-/

namespace UnitCheck.Lowering

open Code Syntax Syntax.Build
open Resolution (declAt)

/-- The body of a function, with the item that it belongs to. -/
theorem Front.exists_item {tree : Tree} {r : Resolution.Resolved} {s : State} (h : Front tree r s)
    {n : StmtNode} {body : Expr} (hfunc : .func n body ∈ partsProgram tree.program) :
    ∃ d i f, declAt r.tree (.func n.record) = some d ∧ (d, i) ∈ s.module.items ∧
      i.span = n.span ∧ i.func = some f ∧
      ∃ p q, LowersBlock ⟨r.tree, r.table.decls⟩ s body p q f.body := by
  obtain ⟨owner, name, params, result, p, q, hlowers, record, hrecord, hvalid⟩ :=
    h.rules.parts h.declared _ hfunc
  cases hlowers with
  | function hr _ _ _ hitem hbody =>
    cases hrecord.symm.trans hr
    have hmem := Array.mem_of_getElem? (hitem hvalid)
    have hdecl : declAt r.tree (.func n.record) = some record.decl := by
      rw [declAt, hrecord]
      rfl
    exact ⟨record.decl, _, _, hdecl, hmem, rfl, rfl, _, _, hbody⟩

theorem calls_body_iff {c : Context} {t : State} {e : Expr} {p q : Pos} {b : BlockId}
    (h : LowersBlock c t e p q b) (xs : List CallSite) :
    t.module.Calls (t.module.blockOperands b) xs ↔ xs = (callsExpr e).all.map (callSite c) :=
  ⟨fun hxs => hxs.unique h.calls, fun hxs => hxs ▸ h.calls⟩

/-- **The order of calls.** The body of every function of a complete and well-formed tree is lowered
to a block of the function's item. Running it makes the calls of `callsExpr`, in this order and no
others: statement by statement, and in each statement those of operands that are put into slots
first. If no such operand overtakes a call at any depth, in operands and array elements that are put
into slots too, and no call is dropped (`keepsOrder`), this is the order in which the calls are
written, operands left to right and before the call. -/
theorem calls_made_in_order (tree : Tree) (hwf : Resolution.WellFormed tree)
    (hcomplete : areCompleteStmts tree.program = true) (n : StmtNode) (body : Expr)
    (hfunc : .func n body ∈ partsProgram tree.program) :
    ∃ r out d i f, Resolution.resolve tree = .ok r ∧ lower r.tree r.table.decls = .ok out ∧
      declAt r.tree (.func n.record) = some d ∧ (d, i) ∈ out.module.items ∧ i.span = n.span ∧
      i.func = some f ∧
      (∀ xs, out.module.Calls (out.module.blockOperands f.body) xs ↔
        xs = (callsExpr body).all.map (callSite ⟨r.tree, r.table.decls⟩)) ∧
      (keepsOrder body = true → ∀ xs, out.module.Calls (out.module.blockOperands f.body) xs ↔
        xs = (postorder body).map (callSite ⟨r.tree, r.table.decls⟩)) := by
  obtain ⟨r, s, hfront⟩ := exists_front hwf hcomplete
  obtain ⟨d, i, f, hd, hmem, hspan, hf, p, q, hbody⟩ := hfront.exists_item hfunc
  have hcalls := calls_body_iff hbody
  refine ⟨r, _, d, i, f, hfront.resolved, hfront.lowered, hd, hmem, hspan, hf, hcalls,
    fun hkeeps => ?_⟩
  rw [← all_callsExpr body hkeeps]
  exact hcalls

/-! ## Two sums

In `f() + *g()` the right operand overtakes the left one. In `*f() + *g()` both are put into slots,
and the order is kept. -/

/-- `fn f() {}  fn g() {}  fn h() { f() + *g() }  fn k() { *f() + *g() }`. -/
def sums : Tree :=
  let build : Build Unit := do
    pushRoot (← func .zero .zero 1 [] 0 (← block .zero []) .default)
    pushRoot (← func .zero .zero 2 [] 0 (← block .zero []) .default)
    let f ← call ⟨1, 10, 13⟩ (← ident .zero 1) []
    let g ← call ⟨1, 17, 20⟩ (← ident .zero 2) []
    let sum ← binary .zero ⟨1⟩ f (← deref .zero g)
    let body ← block .zero [← exprStmt .zero sum false]
    pushRoot (← func .zero .zero 3 [] 0 body .default)
    let f ← deref .zero (← call ⟨1, 31, 34⟩ (← ident .zero 1) [])
    let g ← deref .zero (← call ⟨1, 38, 41⟩ (← ident .zero 2) [])
    let sum ← binary .zero ⟨1⟩ f g
    let body ← block .zero [← exprStmt .zero sum false]
    pushRoot (← func .zero .zero 4 [] 0 body .default)
  (build .empty).2

def overtaking : Expr :=
  .block ⟨9, .zero, 3⟩ [.expr ⟨3, .zero, 1⟩
    (.binary ⟨8, .zero, 1⟩ ⟨1⟩ (.call ⟨4, ⟨1, 10, 13⟩, 1⟩ (.ident ⟨3, .zero, 1⟩ 1) [])
      (.deref ⟨7, .zero, 1⟩ (.call ⟨6, ⟨1, 17, 20⟩, 2⟩ (.ident ⟨5, .zero, 2⟩ 2) []))) false]

def inOrder : Expr :=
  .block ⟨17, .zero, 4⟩ [.expr ⟨5, .zero, 2⟩
    (.binary ⟨16, .zero, 2⟩ ⟨1⟩
      (.deref ⟨12, .zero, 2⟩ (.call ⟨11, ⟨1, 31, 34⟩, 3⟩ (.ident ⟨10, .zero, 3⟩ 1) []))
      (.deref ⟨15, .zero, 3⟩ (.call ⟨14, ⟨1, 38, 41⟩, 4⟩ (.ident ⟨13, .zero, 4⟩ 2) []))) false]

theorem wellFormed_sums : Resolution.WellFormed sums := by decide +kernel

theorem complete_sums : areCompleteStmts sums.program = true := by decide +kernel

theorem program_sums : sums.program =
    [.func ⟨1, .zero, 1⟩ 1 .zero [] (.absent 0) (.block ⟨1, .zero, 1⟩ []) .default,
     .func ⟨2, .zero, 2⟩ 2 .zero [] (.absent 0) (.block ⟨2, .zero, 2⟩ []) .default,
     .func ⟨4, .zero, 3⟩ 3 .zero [] (.absent 0) overtaking .default,
     .func ⟨6, .zero, 4⟩ 4 .zero [] (.absent 0) inOrder .default] :=
  rfl

/-- The calls of `k` are made as they are written. -/
theorem calls_made_in_order_sums : keepsOrder inOrder = true ∧
    ∃ r out d i f, Resolution.resolve sums = .ok r ∧ lower r.tree r.table.decls = .ok out ∧
      declAt r.tree (.func 4) = some d ∧ (d, i) ∈ out.module.items ∧ i.func = some f ∧
      ∀ xs, out.module.Calls (out.module.blockOperands f.body) xs →
        xs.map CallSite.span = [⟨1, 31, 34⟩, ⟨1, 38, 41⟩] := by
  refine ⟨rfl, ?_⟩
  obtain ⟨r, out, d, i, f, hr, hout, hd, hmem, -, hf, -, hcalls⟩ :=
    calls_made_in_order sums wellFormed_sums complete_sums ⟨6, .zero, 4⟩ inOrder
      (program_sums ▸ List.mem_of_getElem? (i := 7) rfl)
  refine ⟨r, out, d, i, f, hr, hout, hd, hmem, hf, fun xs hxs => ?_⟩
  rw [(hcalls rfl xs).1 hxs]
  rfl

/-- The calls of `h` are not: the second one is made first. -/
theorem overtaking_not_in_order :
    (postorder overtaking).map Node.span = [⟨1, 10, 13⟩, ⟨1, 17, 20⟩] ∧
    ∃ r out d i f, Resolution.resolve sums = .ok r ∧ lower r.tree r.table.decls = .ok out ∧
      declAt r.tree (.func 3) = some d ∧ (d, i) ∈ out.module.items ∧ i.func = some f ∧
      ∃ xs, out.module.Calls (out.module.blockOperands f.body) xs ∧
        xs.map CallSite.span = [⟨1, 17, 20⟩, ⟨1, 10, 13⟩] := by
  refine ⟨rfl, ?_⟩
  obtain ⟨r, s, hfront⟩ := exists_front wellFormed_sums complete_sums
  have hpart : .func ⟨4, .zero, 3⟩ overtaking ∈ partsProgram sums.program :=
    program_sums ▸ List.mem_of_getElem? (i := 4) rfl
  obtain ⟨d, i, f, hd, hmem, -, hf, p, q, hbody⟩ := hfront.exists_item hpart
  refine ⟨r, _, d, i, f, hfront.resolved, hfront.lowered, hd, hmem, hf, _,
    (calls_body_iff hbody _).2 rfl, ?_⟩
  rfl

end UnitCheck.Lowering
