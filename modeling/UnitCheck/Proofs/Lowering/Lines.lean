import UnitCheck.Proofs.Lowering.Known
import UnitCheck.Syntax.Build

/-!
# The lines of a block

A statement of a block becomes one line, in order, unless it is a declaration or the value of the
block (`Lowers.lines`). All other lines of the block are made up by lowering, for array literals and
for values that are needed as places, and are marked as such.
-/

namespace UnitCheck.Syntax

/-- The statements of a block that become lines: neither declarations nor the value of the block. -/
def ownStmts : List Stmt → List Stmt
  | [] | [.expr _ _ false] => []
  | s :: ss => if s.isDeclaration then ownStmts ss else s :: ownStmts ss

/-- Whether a block has a value: its last statement is an expression without semicolon. -/
def hasTail : List Stmt → Bool
  | [] => false
  | [.expr _ _ false] => true
  | _ :: ss => hasTail ss

def Stmt.isVar : Stmt → Bool
  | .var .. => true
  | _ => false

end UnitCheck.Syntax

namespace UnitCheck.Lowering

open Code Syntax Syntax.Build

variable {c : Context} {t : State}

/-- The line that a statement becomes, and its span. An assignment only computes its value if its
target was rejected. -/
inductive Becomes (c : Context) (t : State) : Stmt → Line → Span → Prop
  | var {n name nameSpan type value modifier l v} :
      Becomes c t (.var n name nameSpan type value modifier) (.bind l v) n.span
  | assign {n target value place v} :
      target.isProjection = true ∨
        (∃ m name, target = .ident m name ∧ (identDecl c m).isValid = true) →
      Becomes c t (.assign n target value) (.assign place v) n.span
  | unassigned {n target value v} : Unassignable c t target →
      Becomes c t (.assign n target value) (.eval v) n.span
  | expr {n e semicolon v} : Becomes c t (.expr n e semicolon) (.eval v) n.span
  | return_ {n value v} : Becomes c t (.jump n .return_ value) (.return_ v) n.span
  | break_ {n value v} : Becomes c t (.jump n .break_ value) (.break_ v) n.span
  | continue_ {n value} : Becomes c t (.jump n .continue_ value) .continue_ n.span

section

variable (c : Context) (t : State)

def LineOf (s : Stmt) (i : LineId) : Prop :=
  ∃ x, t.module.line? i = some x ∧ Becomes c t s x (t.module.lineSpan i)

/-- The lines that program text stands for. -/
def ownLines (L : List LineId) : List LineId := L.filter fun i => !t.isMade i

def Judgement.Lines : Judgement → Prop
  | .value _ _ _ L _ | .place _ _ _ L _ | .placed _ _ _ L _ | .args _ _ _ L _ | .elems _ _ _ _ _ L
  | .arms _ _ _ _ _ L _ => ownLines t L = []
  | .stmt s _ _ L => List.Forall₂ (LineOf c t) (if s.isDeclaration then [] else [s]) (ownLines t L)
  | .stmts ss _ _ L tail => List.Forall₂ (LineOf c t) (ownStmts ss) (ownLines t L) ∧
      (areCompleteStmts ss = true → tail.isValid = hasTail ss)
  | .body .. | .func .. | .methods .. => True

end

theorem ownLines_append (L L' : List LineId) :
    ownLines t (L ++ L') = ownLines t L ++ ownLines t L' :=
  List.filter_append ..

variable {L L' : List LineId} {p q : Pos} {s : Stmt} {ss : List Stmt} {n : ExprNode}

theorem ownLines_append_nil (h : ownLines t L = []) (h' : ownLines t L' = []) :
    ownLines t (L ++ L') = [] := by
  rw [ownLines_append, h, h']
  rfl

theorem HasLine.ownLines {p : Pos} {x : Line} {span : Span} (h : HasLine t p x span true) :
    ownLines t [p.line] = [] := by
  rw [Lowering.ownLines, List.filter_singleton, h.2.2]
  rfl

theorem HasLine.lineOf {x : Line} {span : Span}
    (h : HasLine t p x span false) (hL : Lowering.ownLines t L = []) (hs : Becomes c t s x span) :
    List.Forall₂ (LineOf c t) [s] (Lowering.ownLines t (L ++ [p.line])) := by
  have hown : Lowering.ownLines t [p.line] = [p.line] := by
    rw [Lowering.ownLines, List.filter_singleton, h.2.2]
    rfl
  have hspan : t.module.lineSpan p.line = span := congrArg (Option.getD · _) h.2.1
  rw [ownLines_append, hL, hown]
  exact .cons ⟨x, (if_pos rfl).trans h.1, hspan ▸ hs⟩ .nil

theorem LowersPlace.assignable {e : Expr} {x : Place} (h : LowersPlace c t e p q L x) :
    e.isProjection = true ∨ ∃ m name, e = .ident m name ∧ (identDecl c m).isValid = true := by
  cases h with
  | slotPlace hname =>
    refine .inr ⟨_, _, rfl, ?_⟩
    cases hname with
    | slot hd =>
      by_contra hzero
      rw [Decls.get?, if_pos (by simpa [Id.isValid] using hzero)] at hd
      cases hd
  | _ => exact .inl rfl

theorem lines_cons
    (hlast : ∀ n e, ss = [] → s ≠ .expr n e false)
    (h : List.Forall₂ (LineOf c t) (if s.isDeclaration then [] else [s]) (ownLines t L))
    (h' : List.Forall₂ (LineOf c t) (ownStmts ss) (ownLines t L')) :
    List.Forall₂ (LineOf c t) (ownStmts (s :: ss)) (ownLines t (L ++ L')) ∧
      hasTail (s :: ss) = hasTail ss := by
  have hown : ownStmts (s :: ss) = (if s.isDeclaration then [] else [s]) ++ ownStmts ss := by
    rw [ownStmts.eq_3 _ _ fun n e hs hss => hlast n e hss hs]
    split <;> rfl
  rw [hown, ownLines_append]
  exact ⟨List.rel_append h h', hasTail.eq_3 _ _ fun n e hs hss => hlast n e hss hs⟩

/-- By induction on the rules: only statements bring lines of their own. -/
theorem Lowers.lines {j : Judgement} (h : Lowers c t j) : j.Lines c t := by
  induction h with
  | absent | ident | literal | block | slotPlace | noArgs | noElems | noArms => rfl
  | unary _ _ ih | ref _ _ ih | deref _ _ ih | index _ _ ih | field _ _ ih | cast _ _ _ ih
  | whileLoop _ _ _ ih | forLoop _ _ _ _ _ ih | derefPlace _ ih | fieldPlace _ ih | placed _ ih
  | closedArm _ _ ih | plainArm _ _ _ ih => exact ih
  | binary _ _ _ ih ih' | call _ _ _ ih ih' | indexPlace _ _ ih ih' | consArgs _ _ ih ih'
  | ifElse _ _ _ _ ih _ ih' | elseIfArm _ _ _ ih _ ih' => exact ownLines_append_nil ih ih'
  | array _ _ _ _ hline _ _ ih => exact ownLines_append_nil hline.ownLines ih
  | spilled _ _ _ hline ih => exact ownLines_append_nil ih hline.ownLines
  | consElems _ _ hline _ ih ih' =>
    exact ownLines_append_nil ih (ownLines_append_nil hline.ownLines ih')
  | noBody | blockBody | valueBody | function | noMethods | consMethods | skipMethod => trivial
  | noStmts => exact ⟨.nil, fun _ => rfl⟩
  | tailStmt hvalue ih =>
    refine ⟨?_, fun hcomplete => ?_⟩
    · rw [show ownLines t _ = [] from ih]
      exact .nil
    · exact LowersValue.isValid hvalue (Bool.and_eq_true_iff.1 hcomplete).1
  | consStmts hlast _ _ ih ih' =>
    obtain ⟨hlines, htail⟩ := lines_cons hlast ih ih'.1
    exact ⟨hlines, fun hcomplete => (ih'.2 (Bool.and_eq_true_iff.1 hcomplete).2).trans htail.symm⟩
  | var _ _ _ hline ih => exact hline.lineOf ih .var
  | assign hplace _ hline ih ih' =>
    exact hline.lineOf (ownLines_append_nil ih ih') (.assign (LowersPlace.assignable hplace))
  | unassigned htarget _ hline ih => exact hline.lineOf ih (.unassigned htarget)
  | func | undeclared | typeDecl | impl => exact .nil
  | expr _ hline ih => exact hline.lineOf ih .expr
  | return_ _ hline ih => exact hline.lineOf ih .return_
  | break_ _ hline ih => exact hline.lineOf ih .break_
  | continue_ _ hline => exact hline.lineOf (L := []) rfl .continue_

theorem LowersProgram.lines (h : LowersProgram c t ss p q L) :
    List.Forall₂ (LineOf c t) (ss.filter Stmt.isVar) (ownLines t L) := by
  induction h with
  | nil => exact .nil
  | @cons s _ _ _ _ _ _ htop _ ih =>
    rw [ownLines_append]
    cases htop with
    | var hvalue _ _ hline => exact List.rel_append (hline.lineOf hvalue.lines .var) ih
    | declaration hdecl =>
      cases s with
      | var => cases hdecl
      | _ => exact ih
    | rejected _ hvar =>
      cases s with
      | var => exact absurd rfl (hvar _ _ _ _ _ _)
      | _ => exact ih

def BlockOf (c : Context) (t : State) (n : ExprNode) (stmts : List Stmt) (b : BlockId) : Prop :=
  ∃ L tail, t.module.block? b = some ⟨L, tail⟩ ∧ t.module.blockSpans[b.index]? = some n.span ∧
    List.Forall₂ (LineOf c t) (ownStmts stmts) (ownLines t L) ∧ tail.isValid = hasTail stmts

theorem LowersBlock.blockOf {p q : Pos} {stmts : List Stmt} {b : BlockId}
    (h : LowersBlock c t (.block n stmts) p q b) (hcomplete : areCompleteStmts stmts = true) :
    BlockOf c t n stmts b := by
  cases h with
  | blockBody hblock hstmts =>
    obtain ⟨hlines, htail⟩ := hstmts.lines
    exact ⟨_, _, (if_pos rfl).trans hblock.1, hblock.2, hlines, htail hcomplete⟩
  | valueBody _ hne => exact absurd rfl (hne n stmts)

theorem blockOf_lowered {depth : Nat} {i : ExprId} {stmts : List Stmt} {s : State}
    (he : c.tree.exprAt depth i = .block n stmts) (hcomplete : areCompleteStmts stmts = true)
    (hs : Ready s) : ∃ b s', (useExpr c (.block n stmts)).block s = .ok b s' ∧ Ready s' ∧
      ∀ t, Later s s' t → BlockOf c t n stmts b := by
  have hr : RecordedExpr c.tree (.block n stmts) := he ▸ (recorded_at c.tree depth).1 i
  obtain ⟨b, s', hrun, hs', _, -, hb⟩ :=
    (useExpr_lowers (.block n stmts) (orComplete hcomplete) hr).block s hs
  refine ⟨b, s', hrun, hs', fun t ht => ?_⟩
  exact LowersBlock.blockOf (hb t ht).2 hcomplete

variable {tree : Tree} {r : Resolution.Resolved} {s : State}

/-- Resolution leaves the forms of expressions as they are. -/
theorem Front.exprAt_eq (h : Front tree r s) (hwf : Resolution.WellFormed tree) (depth : Nat) :
    r.tree.exprAt depth = tree.exprAt depth := by
  obtain ⟨t, hout, rfl⟩ := exists_outcome hwf h.resolved
  rw [← (Tree.unfold_bare _ depth).1, ← (Tree.unfold_bare tree depth).1, ← hout.bare]
  rfl

theorem Front.reported (h : Front tree r s) (hwf : Resolution.WellFormed tree)
    {u : Resolution.Use} (hu : u ∈ Resolution.uses tree)
    (hn : u.mention = .value n) (hnone : (identDecl ⟨r.tree, r.table.decls⟩ n).isValid = false) :
    u.fault r.tree.names ∈ r.faults := by
  obtain ⟨t, hout, rfl⟩ := exists_outcome hwf h.resolved
  have hsite : u.site? = none := by
    by_contra hsome
    obtain ⟨x, hx⟩ := Option.ne_none_iff_exists'.1 hsome
    obtain ⟨d, -, hnote, hd⟩ := hout.leads_of_site hu hx
    rw [hn] at hnote
    rw [identDecl_of_noteAt (c := ⟨{ t.tree with names := t.table.names }, t.table.decls⟩) hnote]
      at hnone
    rw [Decls.get?, if_pos (by simpa [Id.isValid] using hnone)] at hd
    cases hd
  have hmem : u.fault t.table.names ∈ t.table.unfound := by
    rw [hout.unfound]
    exact List.mem_map_of_mem (List.mem_filter.2 ⟨hu, by rw [hsite]; rfl⟩)
  exact (List.mem_filter.1 hmem).1

/-- **Statements become lines.** Names are resolved and a complete unit is lowered. For every block
of the unit that is lowered there is a block in the module that comes out, such that

* the lines of the block that were not made up are those of its statements but for declarations and
  the value of the block, in order, with their spans;
* the block has a value if and only if its last statement is an expression without semicolon.

The same holds if a block is lowered in any state that lowering can be in, behind it and in all
later states. In the same way the global lines are those of the variables at the top of the unit. An
assignment becomes a mere computation only if its target is a name without a declaration, which was
reported as not found, or was reported as unfit. -/
theorem statements_become_lines (tree : Tree) (hwf : Resolution.WellFormed tree)
    (hcomplete : areCompleteStmts tree.program = true) :
    ∃ r s, Resolution.resolve tree = .ok r ∧
      lower r.tree r.table.decls = .ok ⟨s.module, s.faults.toList, s.arrays.toList⟩ ∧
      (∀ depth i n stmts s, tree.exprAt depth i = .block n stmts → areCompleteStmts stmts = true →
        Ready s → ∃ b s', (useExpr ⟨r.tree, r.table.decls⟩ (.block n stmts)).block s = .ok b s' ∧
          Ready s' ∧ ∀ t, Later s s' t → BlockOf ⟨r.tree, r.table.decls⟩ t n stmts b) ∧
      (∀ n stmts, .block n stmts ∈ partsProgram tree.program → areCompleteStmts stmts = true →
        ∃ b, BlockOf ⟨r.tree, r.table.decls⟩ s n stmts b) ∧
      List.Forall₂ (LineOf ⟨r.tree, r.table.decls⟩ s) (tree.program.filter Stmt.isVar)
        (ownLines s s.module.globals) ∧
      ∀ u ∈ Resolution.uses tree, ∀ n, u.mention = .value n →
        (identDecl ⟨r.tree, r.table.decls⟩ n).isValid = false →
          u.fault r.tree.names ∈ r.faults := by
  obtain ⟨r, s, hfront⟩ := exists_front hwf hcomplete
  refine ⟨r, s, hfront.resolved, hfront.lowered, fun depth i n stmts s he => ?_,
    fun n stmts hmem hstmts => ?_,
    hfront.rules.lines, fun u hu n hn hnone => hfront.reported hwf hu hn hnone⟩
  · exact blockOf_lowered (c := ⟨r.tree, r.table.decls⟩)
      ((congrFun (hfront.exprAt_eq hwf depth) i).trans he)
  · obtain ⟨p, q, b, hblock⟩ := hfront.rules.parts hfront.declared _ hmem
    exact ⟨b, LowersBlock.blockOf hblock hstmts⟩

/-- `let g = [1]; fn f() { fn h() {} let a = [1]; b = 1; a }`. -/
def arranging : Tree :=
  let build : Build Unit := do
    let one ← literal .zero .int 1
    let array ← array .zero 0 [one]
    pushRoot (← var .zero .zero 2 0 array .default)
    let inner ← func .zero .zero 4 [] 0 (← block .zero []) .default
    let var ← var .zero .zero 5 0 array .default
    let store ← assign .zero (← ident .zero 6) one
    let tail ← exprStmt .zero (← ident .zero 5) false
    let body ← block .zero [inner, var, store, tail]
    pushRoot (← func .zero .zero 3 [] 0 body .default)
  (build .empty).2

/-- Two lines are left for the variable and for the assignment, whose target was not found. -/
theorem statements_become_lines_arranging :
    ∃ r s, Resolution.resolve arranging = .ok r ∧
      lower r.tree r.table.decls = .ok ⟨s.module, s.faults.toList, s.arrays.toList⟩ ∧
      (ownLines s s.module.globals).length = 1 ∧
      ∃ n stmts b s' L tail, arranging.exprAt 4 6 = .block n stmts ∧
        (useExpr ⟨r.tree, r.table.decls⟩ (.block n stmts)).block .initial = .ok b s' ∧
        s'.module.block? b = some ⟨L, tail⟩ ∧ (ownLines s' L).length = 2 ∧ tail.isValid = true := by
  obtain ⟨r, s, hr, hs, hblocks, -, hglobals, -⟩ :=
    statements_become_lines arranging (by decide +kernel) (by decide +kernel)
  obtain ⟨b, s', hrun, -, hb⟩ := hblocks 4 6 _ _ .initial rfl (by decide +kernel) ready_initial
  obtain ⟨L, tail, hblock, -, hlines, htail⟩ := hb s' (.now _ _)
  exact ⟨r, s, hr, hs, hglobals.length_eq.symm, _, _, b, s', L, tail, rfl, hrun, hblock,
    hlines.length_eq.symm, htail⟩

end UnitCheck.Lowering
