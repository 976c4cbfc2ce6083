import UnitCheck.Proofs.Syntax.Complete

/-!
# The calls of a program

Two orders in which the calls of a program can be listed.

* `postorder` is the order in which they are written: operands left to right, then the call itself.
* `CallOrder` is the order in which lowered code makes them. An operand that needs a place and has
  none is put into a slot by a line of its own, and so are the elements of an array literal. Such a
  line stands ahead of the construct, so the calls in it come *ahead* of all calls that stay
  *within*.

The two agree where no call ahead stands to the right of one within (`keepsOrder`), and then
lowering keeps the order of calls (`all_callsExpr`). In any case every call that is written is made,
or it is one of those that lowering drops with a fault (`accounts`).
-/

namespace UnitCheck.Syntax

open List

/-- The calls of a construct: those in lines ahead of it, and those within it. -/
structure CallOrder where
  ahead : List ExprNode
  within : List ExprNode
deriving DecidableEq

namespace CallOrder

def none : CallOrder := ⟨[], []⟩

def inside (ns : List ExprNode) : CallOrder := ⟨[], ns⟩

def append (a b : CallOrder) : CallOrder := ⟨a.ahead ++ b.ahead, a.within ++ b.within⟩

instance : Append CallOrder := ⟨append⟩

def all (a : CallOrder) : List ExprNode := a.ahead ++ a.within

def spill (a : CallOrder) : CallOrder := ⟨a.all, []⟩

/-- An operand that needs a place: what is no place by its form is put into a slot. -/
def placed (e : Expr) (a : CallOrder) : CallOrder := if e.isProjection then a else a.spill

/-- Whether no call of the second operand gets ahead of one of the first. -/
def joins (a b : CallOrder) : Bool := a.within.isEmpty || b.ahead.isEmpty

theorem all_append {a b : CallOrder} (h : joins a b = true) : (a ++ b).all = a.all ++ b.all := by
  show (a.ahead ++ b.ahead) ++ (a.within ++ b.within) =
    (a.ahead ++ a.within) ++ (b.ahead ++ b.within)
  rw [joins, Bool.or_eq_true, List.isEmpty_iff, List.isEmpty_iff] at h
  obtain h | h := h <;> simp [h]

theorem all_append_inside (a : CallOrder) (ns : List ExprNode) :
    (a ++ inside ns).all = a.all ++ ns :=
  all_append (b := inside ns) (Bool.or_true _)

theorem all_placed (e : Expr) (a : CallOrder) : (placed e a).all = a.all := by
  unfold placed
  split
  · rfl
  · exact append_nil _

end CallOrder

open CallOrder (inside placed joins)

/-! ## The order in which calls are made -/

mutual

/-- The calls of an expression as lowered code makes them. -/
def callsExpr : Expr → CallOrder
  | .absent _ | .lost | .bare _ _ | .ident _ _ | .literal _ _ _ => .none
  | .binary _ _ left right => callsExpr left ++ callsExpr right
  | .unary _ _ e | .cast _ e _ => callsExpr e
  | .ref _ _ e | .deref _ e | .field _ e _ => placed e (callsExpr e)
  | .call n callee args => callsExpr callee ++ callsExprs args ++ inside [n]
  | .index _ target index => placed target (callsExpr target) ++ callsExpr index
  | .array _ elems _ => ⟨callsElems elems, []⟩
  | .block _ stmts => inside (callsStmts stmts)
  | .ifElse _ cond body arms => callsExpr cond ++ inside (callsExpr body).all ++ callsArms arms
  | .whileLoop _ cond body => callsExpr cond ++ inside (callsExpr body).all
  | .forLoop _ _ _ iter body => callsExpr iter ++ inside (callsExpr body).all

def callsExprs : List Expr → CallOrder
  | [] => .none
  | e :: es => callsExpr e ++ callsExprs es

/-- Each element of an array literal is put into the array by a line of its own. -/
def callsElems : List Expr → List ExprNode
  | [] => []
  | e :: es => (callsExpr e).all ++ callsElems es

/-- Nothing is made of what stands behind a plain `else`. -/
def callsArms : List Arm → CallOrder
  | [] => .none
  | .mk kind cond body _ :: arms =>
    if kind = .plain then inside (callsExpr body).all
    else callsExpr cond ++ inside (callsExpr body).all ++ callsArms arms

/-- Functions and types that are declared on the way are not run. A target that is no place is not
computed, and neither is the value of `continue`. -/
def callsStmt : Stmt → List ExprNode
  | .absent _ | .lost | .bare _ _ | .func .. | .typeDecl .. | .impl .. | .jump _ .continue_ _ => []
  | .var _ _ _ _ value _ => (callsExpr value).all
  | .assign _ target value =>
    ((if target.isProjection then callsExpr target else .none) ++ callsExpr value).all
  | .expr _ e _ => (callsExpr e).all
  | .jump _ .return_ value | .jump _ .break_ value => (callsExpr value).all

def callsStmts : List Stmt → List ExprNode
  | [] => []
  | s :: ss => callsStmt s ++ callsStmts ss

end

/-! ## The order in which calls are written -/

mutual

/-- The calls of an expression, left to right, each behind its operands. -/
def postorder : Expr → List ExprNode
  | .absent _ | .lost | .bare _ _ | .ident _ _ | .literal _ _ _ => []
  | .binary _ _ left right => postorder left ++ postorder right
  | .unary _ _ e | .cast _ e _ | .ref _ _ e | .deref _ e | .field _ e _ => postorder e
  | .call n callee args => postorder callee ++ postorderExprs args ++ [n]
  | .index _ target index => postorder target ++ postorder index
  | .array _ elems _ => postorderExprs elems
  | .block _ stmts => postorderStmts stmts
  | .ifElse _ cond body arms => postorder cond ++ postorder body ++ postorderArms arms
  | .whileLoop _ cond body => postorder cond ++ postorder body
  | .forLoop _ _ _ iter body => postorder iter ++ postorder body

def postorderExprs : List Expr → List ExprNode
  | [] => []
  | e :: es => postorder e ++ postorderExprs es

def postorderArms : List Arm → List ExprNode
  | [] => []
  | .mk _ cond body _ :: arms => postorder cond ++ postorder body ++ postorderArms arms

/-- The calls of a statement. Those in a function that is declared on the way belong to it. -/
def postorderStmt : Stmt → List ExprNode
  | .absent _ | .lost | .bare _ _ | .func .. | .typeDecl .. | .impl .. => []
  | .var _ _ _ _ value _ => postorder value
  | .assign _ target value => postorder target ++ postorder value
  | .expr _ e _ => postorder e
  | .jump _ _ value => postorder value

def postorderStmts : List Stmt → List ExprNode
  | [] => []
  | s :: ss => postorderStmt s ++ postorderStmts ss

end

/-! ## Where both agree -/

mutual

/-- At no node of an expression, at any depth, a call in a line ahead of one operand stands to the
right of a call that stays within another, and no call is dropped: behind a plain `else`, in a
target that is no place, or in the value of `continue`. -/
def keepsOrder : Expr → Bool
  | .absent _ | .lost | .bare _ _ | .ident _ _ | .literal _ _ _ => true
  | .binary _ _ left right =>
    keepsOrder left && keepsOrder right && joins (callsExpr left) (callsExpr right)
  | .unary _ _ e | .cast _ e _ | .ref _ _ e | .deref _ e | .field _ e _ => keepsOrder e
  | .call _ callee args =>
    keepsOrder callee && keepOrderArgs args && joins (callsExpr callee) (callsExprs args)
  | .index _ target index => keepsOrder target && keepsOrder index &&
      joins (placed target (callsExpr target)) (callsExpr index)
  | .array _ elems _ => keepOrderElems elems
  | .block _ stmts => keepOrderStmts stmts
  | .ifElse _ cond body arms => keepsOrder cond && keepsOrder body && keepOrderArms arms &&
      joins (callsExpr cond ++ inside (callsExpr body).all) (callsArms arms)
  | .whileLoop _ cond body => keepsOrder cond && keepsOrder body
  | .forLoop _ _ _ iter body => keepsOrder iter && keepsOrder body

def keepOrderArgs : List Expr → Bool
  | [] => true
  | e :: es => keepsOrder e && keepOrderArgs es && joins (callsExpr e) (callsExprs es)

def keepOrderElems : List Expr → Bool
  | [] => true
  | e :: es => keepsOrder e && keepOrderElems es

def keepOrderArms : List Arm → Bool
  | [] => true
  | .mk kind cond body _ :: arms =>
    if kind = .plain then
      keepsOrder body && (postorder cond).isEmpty && (postorderArms arms).isEmpty
    else keepsOrder cond && keepsOrder body && keepOrderArms arms &&
      joins (callsExpr cond ++ inside (callsExpr body).all) (callsArms arms)

def keepsOrderStmt : Stmt → Bool
  | .absent _ | .lost | .bare _ _ | .func .. | .typeDecl .. | .impl .. => true
  | .var _ _ _ _ value _ => keepsOrder value
  | .assign _ target value => keepsOrder value &&
      if target.isProjection then keepsOrder target && joins (callsExpr target) (callsExpr value)
      else (postorder target).isEmpty
  | .expr _ e _ => keepsOrder e
  | .jump _ .continue_ value => (postorder value).isEmpty
  | .jump _ .return_ value | .jump _ .break_ value => keepsOrder value

def keepOrderStmts : List Stmt → Bool
  | [] => true
  | s :: ss => keepsOrderStmt s && keepOrderStmts ss

end

mutual

/-- Where no call is overtaken or dropped, calls are made in the order in which they are written. -/
theorem all_callsExpr : (e : Expr) → keepsOrder e = true → (callsExpr e).all = postorder e
  | .absent _, _ | .lost, _ | .bare _ _, _ | .ident _ _, _ | .literal _ _ _, _ => by
    simp only [callsExpr, postorder]
    rfl
  | .binary _ _ left right, h => by
    simp only [keepsOrder, Bool.and_eq_true] at h
    rw [callsExpr, postorder, CallOrder.all_append h.2, all_callsExpr left h.1.1,
      all_callsExpr right h.1.2]
  | .unary _ _ e, h | .cast _ e _, h => by
    rw [callsExpr, postorder, all_callsExpr e h]
  | .ref _ _ e, h | .deref _ e, h | .field _ e _, h => by
    rw [callsExpr, postorder, CallOrder.all_placed, all_callsExpr e h]
  | .call n callee args, h => by
    simp only [keepsOrder, Bool.and_eq_true] at h
    rw [callsExpr, postorder, CallOrder.all_append_inside, CallOrder.all_append h.2,
      all_callsExpr callee h.1.1, all_callsExprs args h.1.2]
  | .index _ target index, h => by
    simp only [keepsOrder, Bool.and_eq_true] at h
    rw [callsExpr, postorder, CallOrder.all_append h.2, CallOrder.all_placed,
      all_callsExpr target h.1.1, all_callsExpr index h.1.2]
  | .array _ elems _, h => by
    rw [callsExpr, postorder, CallOrder.all, append_nil]
    exact callsElems_eq elems h
  | .block _ stmts, h => by
    rw [callsExpr, postorder]
    exact callsStmts_eq stmts h
  | .ifElse _ cond body arms, h => by
    simp only [keepsOrder, Bool.and_eq_true] at h
    rw [callsExpr, postorder, CallOrder.all_append h.2, CallOrder.all_append_inside,
      all_callsExpr cond h.1.1.1, all_callsExpr body h.1.1.2, all_callsArms arms h.1.2]
  | .whileLoop _ e body, h | .forLoop _ _ _ e body, h => by
    simp only [keepsOrder, Bool.and_eq_true] at h
    rw [callsExpr, postorder, CallOrder.all_append_inside, all_callsExpr e h.1,
      all_callsExpr body h.2]

theorem all_callsExprs : (es : List Expr) → keepOrderArgs es = true →
    (callsExprs es).all = postorderExprs es
  | [], _ => by
    rw [callsExprs, postorderExprs]
    rfl
  | e :: es, h => by
    simp only [keepOrderArgs, Bool.and_eq_true] at h
    rw [callsExprs, postorderExprs, CallOrder.all_append h.2, all_callsExpr e h.1.1,
      all_callsExprs es h.1.2]

theorem callsElems_eq : (es : List Expr) → keepOrderElems es = true →
    callsElems es = postorderExprs es
  | [], _ => by rw [callsElems, postorderExprs]
  | e :: es, h => by
    simp only [keepOrderElems, Bool.and_eq_true] at h
    rw [callsElems, postorderExprs, all_callsExpr e h.1, callsElems_eq es h.2]

theorem all_callsArms : (arms : List Arm) → keepOrderArms arms = true →
    (callsArms arms).all = postorderArms arms
  | [], _ => by
    rw [callsArms, postorderArms]
    rfl
  | .mk kind cond body span :: arms, h => by
    rw [callsArms, postorderArms]
    rw [keepOrderArms] at h
    split at h
    next hkind =>
      simp only [Bool.and_eq_true, List.isEmpty_iff] at h
      rw [if_pos hkind, h.1.2, h.2, List.nil_append, List.append_nil, ← all_callsExpr body h.1.1]
      rfl
    next hkind =>
      simp only [Bool.and_eq_true] at h
      rw [if_neg hkind, CallOrder.all_append h.2, CallOrder.all_append_inside,
        all_callsExpr cond h.1.1.1, all_callsExpr body h.1.1.2, all_callsArms arms h.1.2]

theorem callsStmt_eq : (s : Stmt) → keepsOrderStmt s = true → callsStmt s = postorderStmt s
  | .absent _, _ | .lost, _ | .bare _ _, _ | .func .., _ | .typeDecl .., _ | .impl .., _ => by
    simp only [callsStmt, postorderStmt]
  | .var _ _ _ _ value _, h => by
    rw [callsStmt, postorderStmt, all_callsExpr value h]
  | .assign _ target value, h => by
    simp only [keepsOrderStmt, Bool.and_eq_true] at h
    obtain ⟨hvalue, h⟩ := h
    rw [callsStmt, postorderStmt, ← all_callsExpr value hvalue]
    split at h
    next hproj =>
      simp only [Bool.and_eq_true] at h
      rw [if_pos hproj, CallOrder.all_append h.2, all_callsExpr target h.1]
    next hproj =>
      rw [if_neg hproj, isEmpty_iff.1 h]
      rfl
  | .expr _ e _, h => by
    rw [callsStmt, postorderStmt, all_callsExpr e h]
  | .jump _ .continue_ value, h => by
    rw [callsStmt, postorderStmt]
    exact (isEmpty_iff.1 h).symm
  | .jump _ .return_ value, h | .jump _ .break_ value, h => by
    rw [callsStmt, postorderStmt, all_callsExpr value h]

theorem callsStmts_eq : (ss : List Stmt) → keepOrderStmts ss = true →
    callsStmts ss = postorderStmts ss
  | [], _ => by rw [callsStmts, postorderStmts]
  | s :: ss, h => by
    simp only [keepOrderStmts, Bool.and_eq_true] at h
    rw [callsStmts, postorderStmts, callsStmt_eq s h.1, callsStmts_eq ss h.2]

end

/-! ## What becomes of each call -/

mutual

/-- The calls of an expression that are dropped: behind a plain `else`, in a target that is no
place, and in the value of `continue`. -/
def dropped : Expr → List ExprNode
  | .absent _ | .lost | .bare _ _ | .ident _ _ | .literal _ _ _ => []
  | .binary _ _ left right => dropped left ++ dropped right
  | .unary _ _ e | .cast _ e _ | .ref _ _ e | .deref _ e | .field _ e _ => dropped e
  | .call _ callee args => dropped callee ++ droppedExprs args
  | .index _ target index => dropped target ++ dropped index
  | .array _ elems _ => droppedExprs elems
  | .block _ stmts => droppedStmts stmts
  | .ifElse _ cond body arms => dropped cond ++ dropped body ++ droppedArms arms
  | .whileLoop _ cond body => dropped cond ++ dropped body
  | .forLoop _ _ _ iter body => dropped iter ++ dropped body

def droppedExprs : List Expr → List ExprNode
  | [] => []
  | e :: es => dropped e ++ droppedExprs es

def droppedArms : List Arm → List ExprNode
  | [] => []
  | .mk kind cond body _ :: arms =>
    if kind = .plain then postorder cond ++ dropped body ++ postorderArms arms
    else dropped cond ++ dropped body ++ droppedArms arms

def droppedStmt : Stmt → List ExprNode
  | .absent _ | .lost | .bare _ _ | .func .. | .typeDecl .. | .impl .. => []
  | .var _ _ _ _ value _ => dropped value
  | .assign _ target value =>
    (if target.isProjection then dropped target else postorder target) ++ dropped value
  | .expr _ e _ => dropped e
  | .jump _ .continue_ value => postorder value
  | .jump _ .return_ value | .jump _ .break_ value => dropped value

def droppedStmts : List Stmt → List ExprNode
  | [] => []
  | s :: ss => droppedStmt s ++ droppedStmts ss

end

/-- Every call that is written is made or lost, and nothing else is. -/
def Accounts (written made lost : List ExprNode) : Prop :=
  ∀ n, n ∈ written ↔ n ∈ made ∨ n ∈ lost

namespace Accounts

variable {ws ws' ms ms' ls ls' : List ExprNode} {a b : CallOrder}

theorem nil : Accounts [] [] [] := fun n => by simp

theorem made (ns : List ExprNode) : Accounts ns ns [] := fun n => by simp

theorem lost (ns : List ExprNode) : Accounts ns [] ns := fun n => by simp

theorem append (h : Accounts ws ms ls) (h' : Accounts ws' ms' ls') :
    Accounts (ws ++ ws') (ms ++ ms') (ls ++ ls') := by
  intro n
  rw [mem_append, mem_append, mem_append, h n, h' n]
  exact or_or_or_comm

theorem join (h : Accounts ws a.all ls) (h' : Accounts ws' b.all ls') :
    Accounts (ws ++ ws') (a ++ b).all (ls ++ ls') := by
  intro n
  have hmade : n ∈ (a ++ b).all ↔ n ∈ a.all ++ b.all := by
    show n ∈ (a.ahead ++ b.ahead) ++ (a.within ++ b.within) ↔
      n ∈ (a.ahead ++ a.within) ++ (b.ahead ++ b.within)
    simp only [mem_append]
    exact or_or_or_comm
  rw [hmade]
  exact h.append h' n

theorem body (h : Accounts ws a.all ls) (h' : Accounts ws' ms' ls') :
    Accounts (ws ++ ws') (a ++ inside ms').all (ls ++ ls') :=
  h.join h'

theorem placed {e : Expr} (h : Accounts ws a.all ls) :
    Accounts ws (CallOrder.placed e a).all ls := by
  rw [CallOrder.all_placed]
  exact h

end Accounts

mutual

theorem accounts : (e : Expr) → Accounts (postorder e) (callsExpr e).all (dropped e)
  | .absent _ | .lost | .bare _ _ | .ident _ _ | .literal _ _ _ => .nil
  | .binary _ _ left right => (accounts left).join (accounts right)
  | .unary _ _ e | .cast _ e _ => accounts e
  | .ref _ _ e | .deref _ e | .field _ e _ => (accounts e).placed
  | .call n callee args => by
    rw [postorder, callsExpr, dropped, ← append_nil (_ ++ droppedExprs args)]
    exact ((accounts callee).join (accountsExprs args)).body (.made [n])
  | .index _ target index => (accounts target).placed.join (accounts index)
  | .array _ elems _ => by
    rw [postorder, callsExpr, dropped, CallOrder.all, append_nil]
    exact accountsElems elems
  | .block _ stmts => accountsStmts stmts
  | .ifElse _ cond body arms => ((accounts cond).body (accounts body)).join (accountsArms arms)
  | .whileLoop _ e body | .forLoop _ _ _ e body => (accounts e).body (accounts body)

theorem accountsExprs : (es : List Expr) →
    Accounts (postorderExprs es) (callsExprs es).all (droppedExprs es)
  | [] => .nil
  | e :: es => (accounts e).join (accountsExprs es)

theorem accountsElems : (es : List Expr) →
    Accounts (postorderExprs es) (callsElems es) (droppedExprs es)
  | [] => .nil
  | e :: es => (accounts e).append (accountsElems es)

theorem accountsArms : (arms : List Arm) →
    Accounts (postorderArms arms) (callsArms arms).all (droppedArms arms)
  | [] => .nil
  | .mk kind cond body _ :: arms => by
    rw [callsArms, droppedArms]
    split
    · have h := ((Accounts.lost (postorder cond)).append (accounts body)).append
        (.lost (postorderArms arms))
      rw [nil_append, append_nil] at h
      exact h
    · exact ((accounts cond).body (accounts body)).join (accountsArms arms)

theorem accountsStmt : (s : Stmt) → Accounts (postorderStmt s) (callsStmt s) (droppedStmt s)
  | .absent _ | .lost | .bare _ _ | .func .. | .typeDecl .. | .impl .. => .nil
  | .var _ _ _ _ e _ | .expr _ e _ | .jump _ .return_ e | .jump _ .break_ e => accounts e
  | .assign _ target value => by
    rw [postorderStmt, callsStmt, droppedStmt]
    split
    · exact (accounts target).join (accounts value)
    · exact (Accounts.lost (postorder target)).append (accounts value)
  | .jump _ .continue_ value => .lost (postorder value)

theorem accountsStmts : (ss : List Stmt) →
    Accounts (postorderStmts ss) (callsStmts ss) (droppedStmts ss)
  | [] => .nil
  | s :: ss => (accountsStmt s).append (accountsStmts ss)

end

end UnitCheck.Syntax
