import UnitCheck.Proofs.Code.Calls
import UnitCheck.Proofs.Lowering.Follows
import UnitCheck.Syntax.Build

/-!
# Chains of branches

What an `if` with arms becomes. Its branches are lowered in the order of the program, up to the
first plain `else`, and the chain lists what they became (`LowersBranches`). The arms behind that
are reported, one by one, and leave no other trace (`gives_closedArms`).
-/

namespace UnitCheck.Syntax

/-- The arms up to a plain `else`, which is the last of them. -/
def liveArms : List Arm → List Arm
  | [] => []
  | .mk kind cond body span :: arms =>
    .mk kind cond body span :: if kind = .plain then [] else liveArms arms

def deadArms (arms : List Arm) : List Arm := arms.drop (liveArms arms).length

/-- What an arm runs, and on which condition. -/
def Arm.branch : Arm → Option Expr × Expr
  | .mk kind cond body _ => (if kind = .plain then none else some cond, body)

end UnitCheck.Syntax

namespace UnitCheck.Lowering

open Code Syntax
open Run (Gives)

/-- The fault of an arm that is never run. -/
def deadFault : Arm → Fault
  | .mk _ _ _ span => .error .invalidContext span "'else' branch after the final 'else'"

/-- Branches are lowered one after another, each condition before the body that it is for. -/
inductive LowersBranches (c : Context) :
    List (Option Expr × Expr) → State → List (ValueId × BlockId) → State → Prop
  | nil {s} : LowersBranches c [] s [] s
  | when {cond body rest s s1 s2 s3 v b branches} : (useExpr c cond).value s = .ok v s1 →
      v.isValid = true → (useExpr c body).block s1 = .ok b s2 →
      LowersBranches c rest s2 branches s3 →
      LowersBranches c ((some cond, body) :: rest) s ((v, b) :: branches) s3
  | otherwise {body rest s s1 s2 b branches} : (useExpr c body).block s = .ok b s1 →
      LowersBranches c rest s1 branches s2 →
      LowersBranches c ((none, body) :: rest) s ((0, b) :: branches) s2

variable {c : Context} {s : State} {cond body : Expr}

def State.reporting (s : State) (fs : List Fault) : State :=
  { s with faults := (s.faults.toList ++ fs).toArray }

theorem gives_closedArms (chain : Chain) (arms : List Arm) (s : State) :
    Gives (lowerArms c chain true arms) s fun chain' s' =>
      chain' = chain ∧ s' = s.reporting (arms.map deadFault) := by
  induction arms generalizing s with
  | nil =>
    exact .pure ⟨rfl, by simp [State.reporting]⟩
  | cons arm arms ih =>
    obtain ⟨kind, cond, body, span⟩ := arm
    refine .step rfl ((ih _).mono ?_)
    rintro _ _ ⟨rfl, rfl⟩
    exact ⟨rfl, by simp [State.reporting, deadFault]⟩

theorem gives_cond (hcomplete : isCompleteExpr cond = true) (hrecorded : RecordedExpr c.tree cond)
    (hs : Ready s) : Gives (useExpr c cond).value s fun v s' =>
      (useExpr c cond).value s = .ok v s' ∧ v.isValid = true ∧ Ready s' := by
  obtain ⟨v, s', hrun, hs', L, hran, hv⟩ :=
    (useExpr_lowers cond (orComplete hcomplete) hrecorded).value s hs
  have hvalue := hv s' (.now _ _)
  exact ⟨v, s', hrun, hrun, LowersValue.isValid hvalue hcomplete, hs'⟩

theorem gives_body (hcomplete : isCompleteExpr body = true) (hrecorded : RecordedExpr c.tree body)
    (hs : Ready s) : Gives (useExpr c body).block s fun b s' =>
      (useExpr c body).block s = .ok b s' ∧ Ready s' := by
  obtain ⟨b, s', hrun, hs', -⟩ := (useExpr_lowers body (orComplete hcomplete) hrecorded).block s hs
  exact ⟨b, s', hrun, hrun, hs'⟩

/-- By induction on the arms: each live one makes the chain longer by what it became. -/
theorem gives_openArms (chain : Chain) (hopen : chain.isOpen = true) {arms : List Arm}
    (hcomplete : areCompleteArms arms = true) (hrecorded : RecordedArms c.tree arms)
    (hs : Ready s) :
    Gives (lowerArms c chain false arms) s fun chain' s' => ∃ s1 branches, Ready s1 ∧
      LowersBranches c ((liveArms arms).map Arm.branch) s branches s1 ∧
      chain'.branches = chain.branches ++ branches ∧
      s' = s1.reporting ((deadArms arms).map deadFault) := by
  induction arms generalizing chain s with
  | nil =>
    exact .pure ⟨s, [], hs, .nil, (List.append_nil _).symm, by simp [State.reporting, deadArms]⟩
  | cons arm arms ih =>
    obtain ⟨kind, cond, body, span⟩ := arm
    obtain ⟨hrcond, hrbody, hrest⟩ := hrecorded
    replace hcomplete : ((kind = .elseIf ∧ isCompleteExpr cond = true ∨ kind = .plain ∧
        cond.isMissing = true) ∧ isCompleteExpr body = true) ∧ areCompleteArms arms = true := by
      simpa [areCompleteArms] using hcomplete
    obtain ⟨⟨⟨rfl, hcond⟩ | ⟨rfl, -⟩, hbody⟩, harms⟩ := hcomplete
    · refine (gives_cond hcond hrcond hs).bind fun v s1 ⟨hv, hvalid, hs1⟩ => ?_
      refine (gives_body hbody hrbody hs1).bind fun b s2 ⟨hb, hs2⟩ => ?_
      refine (ih _ (chain.isOpen_snoc v b hopen) harms hrest hs2).mono ?_
      rintro chain' _ ⟨s3, branches, hs3, hlowers, hchain, rfl⟩
      refine ⟨s3, (v, b) :: branches, hs3, .when hv hvalid hb hlowers, ?_, rfl⟩
      rw [hchain, chain.branches_snoc v b hopen, List.append_assoc]
      rfl
    · refine (gives_body hbody hrbody hs).bind fun b s1 ⟨hb, hs1⟩ => ?_
      refine (gives_closedArms (chain.close b) arms s1).mono ?_
      rintro _ _ ⟨rfl, rfl⟩
      exact ⟨s1, [(0, b)], hs1, .otherwise hb .nil, chain.branches_close b hopen, rfl⟩

/-- **Branches of an `if` become a chain.** Let an `if` be complete, with any arms, and lower it in
any state that lowering can be in. The branches are lowered one after another: the first one, then
the arms up to the first plain `else`. The value is a chain that lists what they became, in this
order: a condition, which is there unless the arm is the plain `else`, and the block of the body.
Whatever happens after the last of these branches is one fault for each arm behind the plain `else`,
at the arm, and the value itself: nothing of such an arm is lowered. -/
theorem ifElse_becomes_chain {depth : Nat} {i : ExprId} {n : ExprNode} {arms : List Arm}
    (he : c.tree.exprAt depth i = .ifElse n cond body arms)
    (hcomplete : isCompleteExpr (.ifElse n cond body arms) = true) (hs : Ready s) :
    ∃ v s' s₁ chain, (useExpr c (.ifElse n cond body arms)).value s = .ok v s' ∧ Ready s' ∧
      LowersBranches c ((some cond, body) :: (liveArms arms).map Arm.branch) s chain.branches s₁ ∧
      s'.module.value? v = some (.ifElse (some chain)) ∧ s'.module.valueSpan v = n.span ∧
      s' = { s₁ with
        module := (s₁.module.addValue (.ifElse (some chain)) n.span).1
        faults := (s₁.faults.toList ++ (deadArms arms).map deadFault).toArray } := by
  obtain ⟨hrcond, hrbody, hrarms⟩ : RecordedExpr c.tree (.ifElse n cond body arms) :=
    he ▸ (recorded_at c.tree depth).1 i
  obtain ⟨⟨hcond, hbody⟩, harms⟩ : (isCompleteExpr cond = true ∧ isCompleteExpr body = true) ∧
      areCompleteArms arms = true := by
    simpa [isCompleteExpr] using hcomplete
  obtain ⟨v, s₁, hv, -, hvalid, hs₁⟩ := gives_cond hcond hrcond hs
  obtain ⟨b, s₂, hb, -, hs₂⟩ := gives_body hbody hrbody hs₁
  obtain ⟨chain, _, harms, s₃, branches, hs₃, hlowers, hchain, rfl⟩ :=
    gives_openArms (.last v b) rfl harms hrarms hs₂
  have hs₄ : Ready (s₃.reporting ((deadArms arms).map deadFault)) :=
    { hs₃ with current := hs₃.current }
  obtain ⟨w, s', hnew, hs', _, -, hw⟩ := builds_newValue (.ifElse (some chain)) n.span _ hs₄
  obtain ⟨-, -, rfl, hvalue⟩ := hw s' (.now _ _)
  have hall : Gives (useExpr c (.ifElse n cond body arms)).value s fun x s'' =>
      x = (s₃.reporting ((deadArms arms).map deadFault)).pos.value ∧ s'' = s' := by
    rw [useExpr]
    exact .step hv (.step hb (.step harms ⟨_, _, hnew, rfl, rfl⟩))
  obtain ⟨_, _, hrun, rfl, rfl⟩ := hall
  refine ⟨_, _, s₃, chain, hrun, hs', ?_, (if_pos rfl).trans hvalue.1, ?_, ?_⟩
  · rw [hchain]
    exact .when hv hvalid hb hlowers
  · rw [Module.valueSpan]
    exact congrArg (Option.getD · _) hvalue.2
  · cases hnew
    rfl

/-- `if a {} else if a {} else {} else {} else if a {}`. -/
def branching : Tree :=
  let build : Build Unit := do
    let cond ← Build.ident .zero 1
    let body ← Build.block .zero []
    let _ ← Build.ifElse .zero cond body
      [⟨.elseIf, cond, body, .zero⟩, ⟨.plain, 0, body, .zero⟩, ⟨.plain, 0, body, ⟨1, 3, 4⟩⟩,
        ⟨.elseIf, cond, body, ⟨1, 5, 6⟩⟩]
  (build .empty).2

/-- Three branches are lowered, the last of them without condition, and two arms are reported. -/
theorem ifElse_becomes_chain_branching :
    let cond := .ident ⟨1, .zero, 1⟩ 1
    let body := .block ⟨2, .zero, 1⟩ []
    ∃ arms v s' s₁ chain, branching.exprAt 2 3 = .ifElse ⟨3, .zero, 1⟩ cond body arms ∧
      (useExpr ⟨branching, .empty⟩ (.ifElse ⟨3, .zero, 1⟩ cond body arms)).value .initial =
        .ok v s' ∧
      s'.module.value? v = some (.ifElse (some chain)) ∧
      LowersBranches ⟨branching, .empty⟩ [(some cond, body), (some cond, body), (none, body)]
        .initial
        chain.branches s₁ ∧
      s'.faults.toList = s₁.faults.toList ++ [
        .error .invalidContext ⟨1, 3, 4⟩ "'else' branch after the final 'else'",
        .error .invalidContext ⟨1, 5, 6⟩ "'else' branch after the final 'else'"] := by
  intro cond body
  have he : branching.exprAt 2 3 = .ifElse ⟨3, .zero, 1⟩ cond body
    [.mk .elseIf cond body .zero, .mk .plain (.absent 0) body .zero,
      .mk .plain (.absent 0) body ⟨1, 3, 4⟩, .mk .elseIf cond body ⟨1, 5, 6⟩] := rfl
  obtain ⟨v, s', s₁, chain, hrun, -, hlowers, hvalue, -, rfl⟩ :=
    ifElse_becomes_chain (c := ⟨branching, .empty⟩) he (by decide +kernel) ready_initial
  exact ⟨_, v, _, s₁, chain, he, hrun, hvalue, hlowers, rfl⟩

end UnitCheck.Lowering
