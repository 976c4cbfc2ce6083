import UnitCheck.Code.Basic
import Mathlib.Logic.Relation
import Mathlib.Tactic.Common

/-!
# The calls of lowered code

Lowered code is run line by line, and a value after its operands, left to right. `Module.operands`
are the values that a value is computed from, through places, branches and the lines of blocks.
`Module.Calls vs xs` says that running `vs` one behind the other comes across the calls `xs`, in
this order. A branch or the body of a loop counts once, where it stands.

Code that is written by hand may turn in circles, and then nothing is run in this sense. What is run
is run in one way only (`Calls.unique`), and the calls that are met are those that can be reached
through operands (`Calls.reaches`, `Calls.mem_of_reaches`).
-/

namespace UnitCheck.Code

open List

/-- A call: where it stands, and the functions that it may mean. -/
structure CallSite where
  span : Span
  candidates : List DeclId
deriving DecidableEq

/-! ## Operands -/

def Place.operands : Place → List ValueId
  | missing | slot _ | unknown _ => []
  | index base i => base.operands ++ [i]
  | deref base | field base _ => base.operands

def Line.operands : Line → List ValueId
  | bind _ v | eval v | return_ v | break_ v => [v]
  | assign place v => place.operands ++ [v]
  | continue_ | unknown _ => []

def Value.calls (span : Span) : Value → List CallSite
  | call _ _ candidates => [⟨span, candidates⟩]
  | _ => []

namespace Module

variable (m : Module)

def lineOperands (lines : List LineId) : List ValueId :=
  lines.flatMap fun i => (m.line? i).elim [] Line.operands

def blockOperands (b : BlockId) : List ValueId :=
  (m.block? b).elim [] fun x => m.lineOperands x.lines ++ [x.tail]

def branchOperands (branches : List (ValueId × BlockId)) : List ValueId :=
  branches.flatMap fun x => x.1 :: m.blockOperands x.2

def operandsOf : Value → List ValueId
  | .load place | .ref place _ => place.operands
  | .binary _ left right => [left, right]
  | .unary _ v | .cast v _ => [v]
  | .call callee args _ => callee :: args
  | .block b => m.blockOperands b
  | .ifElse chain => m.branchOperands (chain.elim [] Chain.branches)
  | .whileLoop cond b => cond :: m.blockOperands b
  | .forLoop _ iter b => iter :: m.blockOperands b
  | .poison | .literal _ _ | .funcRef _ | .stackArray _ _ | .broken _ | .unknown _ => []

def operands (v : ValueId) : List ValueId := (m.value? v).elim [] m.operandsOf

def callAt (v : ValueId) : List CallSite := (m.value? v).elim [] (Value.calls (m.valueSpan v))

theorem lineOperands_append (L L' : List LineId) :
    m.lineOperands (L ++ L') = m.lineOperands L ++ m.lineOperands L' :=
  flatMap_append

theorem branchOperands_append (bs bs' : List (ValueId × BlockId)) :
    m.branchOperands (bs ++ bs') = m.branchOperands bs ++ m.branchOperands bs' :=
  flatMap_append

/-! ## Running -/

/-- The calls that are met when values are computed one behind the other. -/
inductive Calls : List ValueId → List CallSite → Prop
  | nil : Calls [] []
  | cons {v : ValueId} {vs : List ValueId} {xs ys : List CallSite} : Calls (m.operands v) xs →
      Calls vs ys → Calls (v :: vs) (xs ++ m.callAt v ++ ys)

def Reaches : ValueId → ValueId → Prop := Relation.ReflTransGen fun v w => w ∈ m.operands v

namespace Calls

variable {m} {vs ws : List ValueId} {xs ys : List CallSite}

theorem append (h : m.Calls vs xs) (h' : m.Calls ws ys) : m.Calls (vs ++ ws) (xs ++ ys) := by
  induction h with
  | nil => exact h'
  | cons hv _ _ ih =>
    rw [append_assoc]
    exact .cons hv ih

theorem unique (h : m.Calls vs xs) (h' : m.Calls vs ys) : xs = ys := by
  induction h generalizing ys with
  | nil =>
    cases h'
    rfl
  | cons _ _ ihv ihvs =>
    cases h' with
    | cons hv hvs => rw [ihv hv, ihvs hvs]

variable {v : ValueId} {x : CallSite}

theorem one {x : Value} {span : Span} (hx : m.value? v = some x)
    (hspan : m.valueSpan v = span) (h : m.Calls (m.operandsOf x) xs) :
    m.Calls [v] (xs ++ x.calls span) := by
  have hv : m.Calls (m.operands v) xs := by
    rw [operands, hx]
    exact h
  have hcall : m.callAt v = x.calls span := by
    rw [callAt, hx, hspan]
    rfl
  rw [← hcall, ← append_nil (xs ++ _)]
  exact .cons hv .nil

theorem zero : m.Calls [0] [] := by
  have hzero : m.Calls [0] ([] ++ m.callAt 0 ++ []) := .cons .nil .nil
  exact hzero

theorem reaches (h : m.Calls vs xs) (hx : x ∈ xs) :
    ∃ v ∈ vs, ∃ w, m.Reaches v w ∧ x ∈ m.callAt w := by
  induction h with
  | nil => cases hx
  | @cons v vs xs ys _ _ ihv ihvs =>
    rcases mem_append.1 hx with hx | hx
    · refine ⟨v, mem_cons_self, ?_⟩
      rcases mem_append.1 hx with hx | hx
      · obtain ⟨u, hu, w, hreach, hw⟩ := ihv hx
        exact ⟨w, .head hu hreach, hw⟩
      · exact ⟨v, .refl, hx⟩
    · obtain ⟨u, hu, hrest⟩ := ihvs hx
      exact ⟨u, mem_cons_of_mem v hu, hrest⟩

theorem of_mem (h : m.Calls vs xs) (hv : v ∈ vs) :
    ∃ ys, m.Calls (m.operands v) ys ∧ ∀ x ∈ ys ++ m.callAt v, x ∈ xs := by
  induction h with
  | nil => cases hv
  | @cons u us xs ys hu _ _ ih =>
    rcases mem_cons.1 hv with rfl | hv
    · exact ⟨xs, hu, fun x hx => mem_append_left ys hx⟩
    · obtain ⟨zs, hzs, hsub⟩ := ih hv
      exact ⟨zs, hzs, fun x hx => mem_append_right _ (hsub x hx)⟩

theorem mem_of_reaches (h : m.Calls vs xs) {w : ValueId} (hv : v ∈ vs) (hw : m.Reaches v w)
    (hx : x ∈ m.callAt w) : x ∈ xs := by
  induction hw using Relation.ReflTransGen.head_induction_on generalizing vs xs with
  | refl =>
    obtain ⟨ys, -, hsub⟩ := h.of_mem hv
    exact hsub x (mem_append_right ys hx)
  | head hstep _ ih =>
    obtain ⟨ys, hys, hsub⟩ := h.of_mem hv
    exact hsub x (mem_append_left _ (ih hys hstep))

end Calls

end Module

/-! ## Branches -/

namespace Chain

def isOpen : Chain → Bool
  | last _ _ => true
  | orElse _ _ _ => false
  | orIf _ _ next => next.isOpen

theorem isOpen_snoc (chain : Chain) (v : ValueId) (b : BlockId) (h : chain.isOpen = true) :
    (chain.snoc v b).isOpen = true := by
  induction chain with
  | last => rfl
  | orElse => cases h
  | orIf _ _ _ ih => exact ih h

theorem branches_snoc (chain : Chain) (v : ValueId) (b : BlockId) (h : chain.isOpen = true) :
    (chain.snoc v b).branches = chain.branches ++ [(v, b)] := by
  induction chain with
  | last => rfl
  | orElse => cases h
  | orIf _ _ _ ih => exact congrArg (_ :: ·) (ih h)

theorem branches_close (chain : Chain) (b : BlockId) (h : chain.isOpen = true) :
    (chain.close b).branches = chain.branches ++ [(0, b)] := by
  induction chain with
  | last => rfl
  | orElse => cases h
  | orIf _ _ _ ih => exact congrArg (_ :: ·) (ih h)

end Chain

end UnitCheck.Code
