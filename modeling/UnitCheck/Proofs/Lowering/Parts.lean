import UnitCheck.Proofs.Lowering.Follows
import UnitCheck.Proofs.Resolution.Outcome
import UnitCheck.Proofs.Syntax.Parts

/-!
# Every part of a program is lowered

After name resolution every function and type of a program has a declaration, and then lowering
makes something of every part (`Lowers.parts`): a function becomes an item, a block a block, and an
expression a value.
-/

namespace UnitCheck.Lowering

open Code List Syntax
open Resolution (Site declAt outline outlineExpr outlineExprs outlineArms outlineStmt outlineStmts
  outlineBody
  outlineInside outlineEach Outline)

/-! ## Declarations -/

def Declared (tree : Tree) (xs : List Site) : Prop :=
  ∀ x ∈ xs, ∃ d, declAt tree x = some d ∧ d.isValid = true

namespace Declared

variable {tree : Tree} {xs ys : List Site}

theorem left (h : Declared tree (xs ++ ys)) : Declared tree xs :=
  fun x hx => h x (mem_append_left ys hx)

theorem right (h : Declared tree (xs ++ ys)) : Declared tree ys :=
  fun x hx => h x (mem_append_right xs hx)

end Declared

theorem sites_outlineBody (body : Expr) : (outlineBody body).sites = (outlineExpr body).sites := by
  cases body <;> rfl

/-! ## Parts -/

variable {c : Context} {t : State}

def Part.Lowered (c : Context) (t : State) : Part → Prop
  | .func n body => ∃ owner name params result p q,
      LowersFunc c t owner n name params result body p q ∧ ∃ r, c.tree.stmts.funcs.get? n.record.index = some r ∧ r.decl.isValid = true
  | .block n stmts => ∃ p q b, LowersBlock c t (.block n stmts) p q b
  | .expr e => ∃ p q L v, LowersValue c t e p q L v

def PartsLowered (c : Context) (t : State) (xs : List Part) : Prop := ∀ x ∈ xs, Part.Lowered c t x

namespace PartsLowered

variable {xs ys : List Part}

theorem nil : PartsLowered c t [] := nofun

theorem cons {x : Part} (h : Part.Lowered c t x) (h' : PartsLowered c t xs) :
    PartsLowered c t (x :: xs) :=
  forall_mem_cons.2 ⟨h, h'⟩

theorem append (h : PartsLowered c t xs) (h' : PartsLowered c t ys) : PartsLowered c t (xs ++ ys) :=
  forall_mem_append.2 ⟨h, h'⟩

end PartsLowered

def Judgement.Parts (c : Context) (t : State) : Judgement → Prop
  | .value e _ _ _ _ | .place e _ _ _ _ | .placed e _ _ _ _ | .body e _ _ _ =>
    Declared c.tree (outlineExpr e).sites → PartsLowered c t (partsExpr e)
  | .args es _ _ _ _ | .elems _ _ es _ _ _ =>
    Declared c.tree (outlineExprs es).sites → PartsLowered c t (partsExprs es)
  | .arms _ closed rest _ _ _ _ => closed = false →
      Declared c.tree (outlineArms rest).sites → PartsLowered c t (partsArms rest)
  | .stmts ss _ _ _ _ =>
    Declared c.tree (outlineStmts ss).sites → PartsLowered c t (partsStmts ss)
  | .stmt s _ _ _ => Declared c.tree (outlineStmt s).sites → PartsLowered c t (partsStmt s)
  | .func _ n _ _ _ e _ _ => Declared c.tree (.func n.record :: (outlineExpr e).sites) →
      PartsLowered c t (.func n e :: partsExpr e)
  | .methods _ ss _ _ =>
    Declared c.tree (outlineStmts ss).sites → PartsLowered c t (partsMethods ss)

variable {n : StmtNode} {name : NameId} {params : List ParamForm} {result : TypeExpr} {body : Expr}
  {p q : Pos} {xs : List Site} {tree : Tree} {L : List LineId}

/-- The rule for functions, with the declaration that a function has. -/
theorem LowersFunc.lowered {owner : DeclId} (h : LowersFunc c t owner n name params result body p q)
    (hd : Declared c.tree (.func n.record :: xs)) : Part.Lowered c t (.func n body) := by
  obtain ⟨d, hd, hvalid⟩ := hd _ mem_cons_self
  obtain ⟨r, hr, rfl⟩ := Option.map_eq_some_iff.1 hd
  exact ⟨owner, name, params, result, p, q, h, r, hr, hvalid⟩

/-- The sites of a function statement: itself, its parameters and its body. -/
theorem sites_outlineStmt_func (n : StmtNode) (name : NameId) (nameSpan : Span)
    (params : List ParamForm) (result : TypeExpr) (body : Expr) (modifier : Modifier) :
    (outlineStmt (.func n name nameSpan params result body modifier)).sites =
      .func n.record ::
        ((outlineEach (.param n.record) 0 (params.map Resolution.labelOfParam)).sites ++
        (outlineExpr body).sites) := by
  rw [Resolution.outlineStmt_func, ← sites_outlineBody body]
  rfl

theorem Declared.func {nameSpan : Span} {modifier : Modifier}
    (h : Declared tree (outlineStmt (.func n name nameSpan params result body modifier)).sites) :
    Declared tree (.func n.record :: (outlineExpr body).sites) := by
  rw [sites_outlineStmt_func] at h
  refine forall_mem_cons.2 ⟨h _ mem_cons_self, fun x hx => h x ?_⟩
  exact mem_cons_of_mem _ (mem_append_right _ hx)

theorem Declared.methods {n : StmtNode} {kind : TypeDeclKind} {name : NameId} {nameSpan : Span}
    {fields variants : List MemberForm} {methods : List Stmt} {tree : Tree} (h : Declared tree
      (outlineStmt (.typeDecl n kind name nameSpan fields variants methods)).sites) :
    Declared tree (outlineStmts methods).sites := by
  intro x hx
  have hmembers : x ∈ (outlineEach (.variant n.record) 0 (variants.map Resolution.labelOfMember) ++
      outlineStmts methods).sites := mem_append_right _ hx
  have hinside : x ∈ (Resolution.outlineType n.record fields variants methods).sites :=
    mem_append_right _ hmembers
  exact h x (mem_cons_of_mem _ hinside)

theorem Declared.not_undeclared {r : TypeDeclRecord}
    (h : Declared tree (.type n.record :: xs))
    (hr : tree.stmts.typeDecls.get? n.record.index = some r)
    (hinvalid : r.decl.isValid = false) : False := by
  obtain ⟨d, hd, hvalid⟩ := h _ mem_cons_self
  obtain ⟨r', hr', rfl⟩ := Option.map_eq_some_iff.1 hd
  cases hr.symm.trans hr'
  rw [hinvalid] at hvalid
  cases hvalid

theorem Lowers.parts {j : Judgement} (h : Lowers c t j) : j.Parts c t := by
  induction h with
  | absent | ident | literal | slotPlace | noBody | noArgs | noElems | noStmts | continue_ |
      noMethods =>
    exact fun _ => .nil
  | binary hl hr hv ihl ihr =>
    intro hd
    exact .cons ⟨_, _, _, _, .binary hl hr hv⟩ ((ihl hd.left).append (ihr hd.right))
  | unary _ _ ih | cast _ _ _ ih | ref _ _ ih | deref _ _ ih | index _ _ ih | field _ _ ih
  | array _ _ _ _ _ _ _ ih | block _ _ ih | derefPlace _ ih | fieldPlace _ ih | placed _ ih
  | spilled _ _ _ _ ih | valueBody _ _ _ _ ih | impl _ ih | expr _ _ ih
  | return_ _ _ ih | break_ _ _ ih => exact ih
  | call _ _ _ ih ihs | indexPlace _ _ ih ihs | consArgs _ _ ih ihs | consElems _ _ _ _ ih ihs
  | consStmts _ _ _ ih ihs =>
    intro hd
    exact (ih hd.left).append (ihs hd.right)
  | blockBody hblock hstmts ih => exact fun hd => .cons ⟨_, _, _, .blockBody hblock hstmts⟩ (ih hd)
  | ifElse hcond hbody harms hv ihcond ihbody iharms =>
    intro hd
    refine .cons ⟨_, _, _, _, .ifElse hcond hbody harms hv⟩ ?_
    exact ((ihcond hd.left).append (ihbody hd.right.left)).append (iharms rfl hd.right.right)
  | whileLoop hcond hbody hv ihcond ihbody =>
    intro hd
    exact .cons ⟨_, _, _, _, .whileLoop hcond hbody hv⟩ ((ihcond hd.left).append (ihbody hd.right))
  | forLoop _ _ _ _ _ ihiter ihbody =>
    intro hd
    refine (ihiter hd.left).append (ihbody fun x hx => hd.right x ?_)
    exact mem_cons_of_mem _ hx
  | noArms => exact fun _ _ => .nil
  | closedArm => nofun
  | plainArm _ _ ihbody => exact fun _ hd => ihbody hd.right.left
  | elseIfArm _ _ _ ihcond ihbody iharms =>
    intro _ hd
    exact ((ihcond hd.left).append (ihbody hd.right.left)).append (iharms rfl hd.right.right)
  | tailStmt _ ih =>
    intro hd
    rw [partsStmts, partsStmts, append_nil]
    exact ih hd.left
  | var _ _ _ _ ih => exact fun hd => ih hd.left
  | assign _ _ _ ihtarget ihvalue =>
    intro hd
    refine .append ?_ (ihvalue hd.right)
    split
    · exact ihtarget hd.left
    · exact .nil
  | unassigned hno _ _ ih =>
    intro hd
    rw [partsStmt, if_neg (by rw [hno.isProjection]; decide)]
    exact ih hd.right
  | func _ ih => exact fun hd => ih hd.func
  | undeclared hr hinvalid => exact fun hd => (hd.not_undeclared hr hinvalid).elim
  | typeDecl _ _ _ _ _ _ _ ih => exact fun hd => ih hd.methods
  | function hr hparams hres htype hitem hbody ih =>
    intro hd
    refine .cons (LowersFunc.lowered (.function hr hparams hres htype hitem hbody) hd) (ih ?_)
    exact fun x hx => hd x (mem_cons_of_mem _ hx)
  | consMethods _ _ ih ihs => exact fun hd => (ih hd.left.func).append (ihs hd.right)
  | skipMethod hkind _ _ ihs =>
    intro hd
    rw [partsMethods]
    · exact ihs hd.right
    · rintro _ _ _ _ _ _ _ rfl
      exact hkind rfl

/-! ## Whole units -/

theorem LowersTop.parts {s : Stmt} (h : LowersTop c t s p q L)
    (hd : Declared c.tree (outlineStmt s).sites) : PartsLowered c t (partsTop s) := by
  cases h with
  | var hvalue => exact hvalue.parts hd.left
  | declaration hdecl hstmt =>
    have hparts := hstmt.parts hd
    cases s <;> first | exact hparts | cases hdecl
  | rejected hdecl hvar =>
    unfold partsTop
    split
    · exact (hvar _ _ _ _ _ _ rfl).elim
    · rw [hdecl]
      exact .nil

theorem LowersProgram.parts {ss : List Stmt}
    (h : LowersProgram c t ss p q L) (hd : Declared c.tree (outlineStmts ss).sites) :
    PartsLowered c t (partsProgram ss) := by
  induction h with
  | nil => exact .nil
  | cons hs _ ih =>
    exact (hs.parts hd.left).append (ih hd.right)

/-- A unit whose names were resolved and which then was lowered. -/
structure Front (tree : Tree) (r : Resolution.Resolved) (s : State) : Prop where
  resolved : Resolution.resolve tree = .ok r
  lowered : lower r.tree r.table.decls = .ok ⟨s.module, s.faults.toList, s.arrays.toList⟩
  run : lowerProgram ⟨r.tree, r.table.decls⟩ tree.program .initial = .ok () s
  ready : Ready s
  ran : Ran .initial s s.module.globals
  rules : LowersProgram ⟨r.tree, r.table.decls⟩ s tree.program .start s.pos s.module.globals
  declared : Declared r.tree (outline tree).sites

theorem exists_front (hwf : Resolution.WellFormed tree)
    (hcomplete : areCompleteStmts tree.program = true) : ∃ r s, Front tree r s := by
  obtain ⟨_, s, hrun, hout⟩ := (Resolution.freshTable_initial tree).gives_resolveProgram hwf
  let r : Resolution.Resolved :=
    ⟨{ s.tree with names := s.table.names }, s.table, s.impls, s.table.faults.toList⟩
  have hbare : r.tree.bare = tree.bare := hout.bare
  have hprogram : r.tree.program = tree.program := by
    rw [← Tree.program_bare r.tree, hbare, Tree.program_bare]
  have hcomplete' : areCompleteStmts r.tree.program = true := by rw [hprogram]; exact hcomplete
  obtain ⟨t, hlower, hlowered, hready, hran, hrules⟩ := lower_follows hcomplete'
  rw [hprogram] at hlowered hrules
  refine ⟨r, t, by rw [Resolution.resolve, hrun], hlower, hlowered, hready, hran, hrules, ?_⟩
  -- the sites are numbered behind the built-in types, so no number is zero
  intro x hx
  have hmem := mem_map_of_mem (f := declAt s.tree) hx
  rw [hout.numbered] at hmem
  obtain ⟨n, hn, hx⟩ := mem_map.1 hmem
  have hpos : n ≠ 0 := by
    have := (mem_range'_1.1 hn).1
    omega
  refine ⟨⟨n⟩, ?_, by simpa [Id.isValid] using hpos⟩
  have hsame : declAt r.tree x = declAt s.tree x := by cases x <;> rfl
  rw [hsame, ← hx]

end UnitCheck.Lowering
