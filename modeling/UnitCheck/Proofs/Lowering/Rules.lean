import UnitCheck.Proofs.Lowering.Bodies

/-!
# The rules of lowering

What each construct becomes, as judgements about the program in a state in which all of it is still
there. A rule tells the positions before and after, the lines that were appended to what was being
filled, and the outcome. Since nodes are numbered in the order in which they are made, the positions
fix the identifiers of everything that a rule makes.

`useExpr_lowers` and its companions say that lowering follows the rules. Everything else about
lowered code is read off the rules, by induction over the program.
-/

namespace UnitCheck.Lowering

open Code Syntax

variable (c : Context) (t : State)

/-! ## Parts without bodies -/

def identDecl (n : ExprNode) : DeclId :=
  ((c.tree.exprs.idents.get? n.record.index).map IdentRecord.decl).getD 0

def varDecl (n : StmtNode) : DeclId :=
  ((c.tree.stmts.vars.get? n.record.index).map VarRecord.decl).getD 0

def loopDecl (n : ExprNode) : DeclId :=
  ((c.tree.exprs.fors.get? n.record.index).map ForRecord.decl).getD 0

def callCandidates (n : ExprNode) : List DeclId :=
  ((c.tree.exprs.calls.get? n.record.index).bind CallRecord.candidates).getD []

/-- What a use of a name stands for. A variable or parameter stands for a slot that was made for it,
and a function for itself. Poison takes the place of a name that means nothing. It also takes that
of a name which cannot be used here, and then the name was reported: it is no value, or it was not
lowered yet. -/
inductive Names (n : ExprNode) (name : NameId) : Value → Prop
  | slot {d l} : c.decls.get? (identDecl c n) = some d → d.kind = .var ∨ d.kind = .param →
      t.HasSlot l (identDecl c n) → Names n name (.load (.slot l))
  | func {d} : c.decls.get? (identDecl c n) = some d → d.kind = .function →
      Names n name (.funcRef (identDecl c n))
  | unknown : c.decls.get? (identDecl c n) = none → Names n name .poison
  | unfit {d} : c.decls.get? (identDecl c n) = some d →
      d.kind ≠ .var → d.kind ≠ .param → d.kind ≠ .function →
      .error .invalidContext n.span ("'" ++ c.name name ++ "' is a " ++ d.kind.toText ++
        ", not a value") ∈ t.faults.toList → Names n name .poison
  | lost {d} : c.decls.get? (identDecl c n) = some d → d.kind = .var ∨ d.kind = .param →
      .internal n.span ("no local slot for '" ++ c.name name ++ "'") ∈ t.faults.toList →
      Names n name .poison

inductive LowersParams :
    List DeclId → List ParamForm → Pos → Pos → List Code.Param → Prop
  | nil {ds p} : LowersParams ds [] p p []
  | cons {ds f fs p q type xs} : Spells c t.module.types f.type type →
      HasLocal t p ⟨c.name f.name, ds.headD 0, type, f.modifier⟩ f.span →
      LowersParams (ds.drop 1) fs p.addLocal q xs →
      LowersParams ds (f :: fs) p q (⟨p.slot, ds.headD 0, type⟩ :: xs)

inductive LowersMembers :
    List DeclId → List MemberForm → List Code.Member → Prop
  | nil {ds} : LowersMembers ds [] []
  | cons {ds f fs type xs} : Spells c t.module.types f.type type → LowersMembers (ds.drop 1) fs xs →
      LowersMembers ds (f :: fs) (⟨ds.headD 0, c.name f.name, type⟩ :: xs)

/-- The result of a function is the empty type unless one is written. -/
def SpellsResult (T : TypeTable) (x : TypeExpr) (i : TypeId) : Prop :=
  if x.id.isValid then Spells c T x i else i = Builtin.unit

/-- A target that nothing can be assigned to: a name that was not found, or something that is no
place, which is a fault. -/
inductive Unassignable : Expr → Prop
  | unresolved {n name} : (identDecl c n).isValid = false → Unassignable (.ident n name)
  | unfit {e node} : e.isProjection = false → e.node? = some node →
      .error .invalidContext node.span "left side of assignment is not assignable" ∈
        t.faults.toList →
      Unassignable e

theorem Unassignable.isProjection {c : Context} {t : State} {e : Expr} (h : Unassignable c t e) :
    e.isProjection = false := by
  cases h with
  | unresolved => rfl
  | unfit h => exact h

/-! ## Expressions and statements -/

/-- What a rule is about. The positions are those before and after, and `L` are the lines that were
appended. -/
inductive Judgement
  /-- An expression becomes a value. -/
  | value (e : Expr) (p q : Pos) (L : List LineId) (v : ValueId)
  /-- An expression becomes a place of its own. -/
  | place (e : Expr) (p q : Pos) (L : List LineId) (x : Place)
  /-- An expression becomes a place, or a value that is put into a slot. -/
  | placed (e : Expr) (p q : Pos) (L : List LineId) (x : Place)
  /-- An expression becomes the body of something. -/
  | body (e : Expr) (p q : Pos) (b : BlockId)
  /-- Arguments become values, left to right. -/
  | args (es : List Expr) (p q : Pos) (L : List LineId) (vs : List ValueId)
  /-- The elements of an array literal are written into its slot, from element `i` on. -/
  | elems (l : LocalId) (i : Nat) (es : List Expr) (p q : Pos) (L : List LineId)
  /-- Arms make a chain longer. Nothing behind a plain `else` is lowered. -/
  | arms (chain : Chain) (closed : Bool) (arms : List Arm) (p q : Pos) (L : List LineId)
      (chain' : Chain)
  /-- The statements of a block. A last expression without semicolon is the value of the block. -/
  | stmts (ss : List Stmt) (p q : Pos) (L : List LineId) (tail : ValueId)
  /-- A statement appends lines. -/
  | stmt (s : Stmt) (p q : Pos) (L : List LineId)
  /-- A function. If it has a declaration, it has an item. -/
  | func (owner : DeclId) (n : StmtNode) (name : NameId) (params : List ParamForm)
      (result : TypeExpr) (body : Expr) (p q : Pos)
  /-- The functions in the body of a type or an implementation; nothing else may stand there. -/
  | methods (owner : DeclId) (ss : List Stmt) (p q : Pos)

/-- The rules for expressions and statements. -/
inductive Lowers : Judgement → Prop
  -- An expression becomes a value.
  | absent {i p} : Lowers (.value (.absent i) p p [] 0)
  | ident {n name x p} : Names c t n name x → HasValue t p x n.span →
      Lowers (.value (.ident n name) p p.addValue [] p.value)
  | literal {n kind text p} : HasValue t p (.literal kind (c.name text)) n.span →
      Lowers (.value (.literal n kind text) p p.addValue [] p.value)
  | binary {n op left right p p1 q L L' v w} : Lowers (.value left p p1 L v) →
      Lowers (.value right p1 q L' w) → HasValue t q (.binary op v w) n.span →
      Lowers (.value (.binary n op left right) p q.addValue (L ++ L') q.value)
  | unary {n op operand p q L v} : Lowers (.value operand p q L v) →
      HasValue t q (.unary op v) n.span → Lowers (.value (.unary n op operand) p q.addValue L q.value)
  | ref {n isMut value p q L place} : Lowers (.placed value p q L place) →
      HasValue t q (.ref place isMut) n.span →
      Lowers (.value (.ref n isMut value) p q.addValue L q.value)
  | deref {n value p q L place} : Lowers (.place (.deref n value) p q L place) →
      HasValue t q (.load place) n.span → Lowers (.value (.deref n value) p q.addValue L q.value)
  | index {n target index p q L place} : Lowers (.place (.index n target index) p q L place) →
      HasValue t q (.load place) n.span →
      Lowers (.value (.index n target index) p q.addValue L q.value)
  | field {n target name p q L place} : Lowers (.place (.field n target name) p q L place) →
      HasValue t q (.load place) n.span →
      Lowers (.value (.field n target name) p q.addValue L q.value)
  | call {n callee args p p1 q L L' v vs} : Lowers (.value callee p p1 L v) →
      Lowers (.args args p1 q L' vs) → HasValue t q (.call v vs (callCandidates c n)) n.span →
      Lowers (.value (.call n callee args) p q.addValue (L ++ L') q.value)
  | array {n elems elemType p q L elem type name} : Spells c t.module.types elemType elem →
      (if elem.isValid then
        t.module.types.view type = .wrap (.stack (UInt32.ofNat elems.length)) elem
      else type = 0) →
      HasLocal t p ⟨name, 0, type, .mutable⟩ n.span →
      HasValue t p (.stackArray elem (UInt32.ofNat elems.length)) n.span →
      HasLine t p (.bind p.slot p.value) n.span true →
      Lowers (.elems p.slot 0 elems p.addLocal.addValue.addLine q L) →
      HasValue t q (.load (.slot p.slot)) n.span →
      Lowers (.value (.array n elems elemType) p q.addValue (p.line :: L) q.value)
  | cast {n value type p q L v target} : Lowers (.value value p q L v) →
      Spells c t.module.types type target → HasValue t q (.cast v target) n.span →
      Lowers (.value (.cast n value type) p q.addValue L q.value)
  | block {n stmts p q b} : Lowers (.body (.block n stmts) p q b) → HasValue t q (.block b) n.span →
      Lowers (.value (.block n stmts) p q.addValue [] q.value)
  | ifElse {n cond body arms p p1 p2 q L L' v b chain} : Lowers (.value cond p p1 L v) →
      Lowers (.body body p1 p2 b) → Lowers (.arms (.last v b) false arms p2 q L' chain) →
      HasValue t q (.ifElse (some chain)) n.span →
      Lowers (.value (.ifElse n cond body arms) p q.addValue (L ++ L') q.value)
  | whileLoop {n cond body p p1 q L v b} : Lowers (.value cond p p1 L v) →
      Lowers (.body body p1 q b) → HasValue t q (.whileLoop v b) n.span →
      Lowers (.value (.whileLoop n cond body) p q.addValue L q.value)
  | forLoop {n binding bindingSpan iter body p p1 q L v b f} : f ∈ t.faults.toList →
      Lowers (.value iter p p1 L v) →
      HasLocal t p1 ⟨c.name binding, loopDecl c n, 0, .default⟩ bindingSpan →
      Lowers (.body body p1.addLocal q b) → HasValue t q (.forLoop p1.slot v b) n.span →
      Lowers (.value (.forLoop n binding bindingSpan iter body) p q.addValue L q.value)
  -- An expression becomes a place of its own.
  | slotPlace {n name l p} : Names c t n name (.load (.slot l)) →
      Lowers (.place (.ident n name) p p [] (.slot l))
  | derefPlace {n value p q L base} : Lowers (.placed value p q L base) →
      Lowers (.place (.deref n value) p q L (.deref base))
  | indexPlace {n target index p p1 q L L' base v} : Lowers (.placed target p p1 L base) →
      Lowers (.value index p1 q L' v) →
      Lowers (.place (.index n target index) p q (L ++ L') (.index base v))
  | fieldPlace {n target name p q L base} : Lowers (.placed target p q L base) →
      Lowers (.place (.field n target name) p q L (.field base (c.name name)))
  -- An expression becomes a place, or a value that is put into a slot.
  | placed {e p q L place} : Lowers (.place e p q L place) → Lowers (.placed e p q L place)
  | spilled {e p q L v name span} : e.isProjection = false → Lowers (.value e p q L v) →
      HasLocal t q ⟨name, 0, 0, .mutable⟩ span → HasLine t q (.bind q.slot v) span true →
      Lowers (.placed e p q.addLocal.addLine (L ++ [q.line]) (.slot q.slot))
  -- An expression becomes the body of something.
  | noBody {i p} : Lowers (.body (.absent i) p p 0)
  | blockBody {n stmts p q L tail} : HasBlock t p ⟨L, tail⟩ n.span →
      Lowers (.stmts stmts p.addBlock q L tail) → Lowers (.body (.block n stmts) p q p.block)
  | valueBody {e p q L v span} : (∀ i, e ≠ .absent i) → (∀ n stmts, e ≠ .block n stmts) →
      HasBlock t p ⟨L, v⟩ span → Lowers (.value e p.addBlock q L v) → Lowers (.body e p q p.block)
  -- Arguments become values, left to right.
  | noArgs {p} : Lowers (.args [] p p [] [])
  | consArgs {e es p p1 q L L' v vs} : Lowers (.value e p p1 L v) → Lowers (.args es p1 q L' vs) →
      Lowers (.args (e :: es) p q (L ++ L') (v :: vs))
  -- The elements of an array literal are written into its slot, from element `i` on.
  | noElems {l i p} : Lowers (.elems l i [] p p [])
  | consElems {l i e es p p1 q L L' v span} : Lowers (.value e p p1 L v) →
      HasValue t p1 (.literal .uint (Text.ofNat i)) span →
      HasLine t p1 (.assign (.index (.slot l) p1.value) v) span true →
      Lowers (.elems l (i + 1) es p1.addValue.addLine q L') →
      Lowers (.elems l i (e :: es) p q (L ++ p1.line :: L'))
  -- Arms make a chain longer. Nothing behind a plain `else` is lowered.
  | noArms {chain closed p} : Lowers (.arms chain closed [] p p [] chain)
  | closedArm {chain chain' kind cond body span arms p q L} :
      .error .invalidContext span "'else' branch after the final 'else'" ∈ t.faults.toList →
      Lowers (.arms chain true arms p q L chain') →
      Lowers (.arms chain true (.mk kind cond body span :: arms) p q L chain')
  | plainArm {chain chain' cond body span arms p p1 q L b} : Lowers (.body body p p1 b) →
      Lowers (.arms (chain.close b) true arms p1 q L chain') →
      Lowers (.arms chain false (.mk .plain cond body span :: arms) p q L chain')
  | elseIfArm {chain chain' cond body span arms p p1 p2 q L L' v b} :
      Lowers (.value cond p p1 L v) → Lowers (.body body p1 p2 b) →
      Lowers (.arms (chain.snoc v b) false arms p2 q L' chain') →
      Lowers (.arms chain false (.mk .elseIf cond body span :: arms) p q (L ++ L') chain')
  -- The statements of a block. A last expression without semicolon is the value of the block.
  | noStmts {p} : Lowers (.stmts [] p p [] 0)
  | tailStmt {n e p q L v} : Lowers (.value e p q L v) → Lowers (.stmts [.expr n e false] p q L v)
  | consStmts {s ss p p1 q L L' tail} : (∀ n e, ss = [] → s ≠ .expr n e false) →
      Lowers (.stmt s p p1 L) → Lowers (.stmts ss p1 q L' tail) →
      Lowers (.stmts (s :: ss) p q (L ++ L') tail)
  -- A statement appends lines.
  | var {n name nameSpan type value modifier p q L v i} : Lowers (.value value p q L v) →
      Spells c t.module.types type i →
      HasLocal t q ⟨c.name name, varDecl c n, i, modifier⟩ nameSpan →
      HasLine t q (.bind q.slot v) n.span false →
      Lowers (.stmt (.var n name nameSpan type value modifier) p q.addLocal.addLine (L ++ [q.line]))
  | assign {n target value p p1 q L L' place v} : Lowers (.place target p p1 L place) →
      Lowers (.value value p1 q L' v) → HasLine t q (.assign place v) n.span false →
      Lowers (.stmt (.assign n target value) p q.addLine (L ++ L' ++ [q.line]))
  | unassigned {n target value p q L v} : Unassignable c t target → Lowers (.value value p q L v) →
      HasLine t q (.eval v) n.span false →
      Lowers (.stmt (.assign n target value) p q.addLine (L ++ [q.line]))
  | func {n name nameSpan params result body modifier p q} :
      Lowers (.func 0 n name params result body p q) →
      Lowers (.stmt (.func n name nameSpan params result body modifier) p q [])
  | undeclared {n kind name nameSpan fields variants methods r p} :
      c.tree.stmts.typeDecls.get? n.record.index = some r → r.decl.isValid = false →
      Lowers (.stmt (.typeDecl n kind name nameSpan fields variants methods) p p [])
  | typeDecl {n kind name nameSpan fields variants methods r p q type xs ys ds} :
      c.tree.stmts.typeDecls.get? n.record.index = some r → r.decl.isValid = true →
      t.module.types.view type = .atom (.named r.decl) →
      LowersMembers c t ((r.fields.getD []).map Syntax.Member.decl) fields xs →
      LowersMembers c t ((r.variants.getD []).map Syntax.Member.decl) variants ys →
      HasItem t p (r.decl, ⟨.type, r.decl, c.name name, n.span, none,
        some ⟨kind, type, xs, ys, ds⟩, none⟩) →
      Lowers (.methods r.decl methods p.addItem q) →
      Lowers (.stmt (.typeDecl n kind name nameSpan fields variants methods) p q [])
  | impl {n trait target methods owner p q} : Lowers (.methods owner methods p q) →
      Lowers (.stmt (.impl n trait target methods) p q [])
  | expr {n e semicolon p q L v} : Lowers (.value e p q L v) → HasLine t q (.eval v) n.span false →
      Lowers (.stmt (.expr n e semicolon) p q.addLine (L ++ [q.line]))
  | return_ {n value p q L v} : Lowers (.value value p q L v) →
      HasLine t q (.return_ v) n.span false →
      Lowers (.stmt (.jump n .return_ value) p q.addLine (L ++ [q.line]))
  | break_ {n value p q L v} : Lowers (.value value p q L v) →
      HasLine t q (.break_ v) n.span false →
      Lowers (.stmt (.jump n .break_ value) p q.addLine (L ++ [q.line]))
  | continue_ {n value p} : (value.isGiven = true → ∃ f, f ∈ t.faults.toList) →
      HasLine t p .continue_ n.span false →
      Lowers (.stmt (.jump n .continue_ value) p p.addLine [p.line])
  -- A function. If it has a declaration, it has an item.
  | function {owner n name params result body r p p1 q xs res type b} :
      c.tree.stmts.funcs.get? n.record.index = some r →
      LowersParams c t ((r.params.getD []).map Syntax.Param.decl) params p p1 xs →
      SpellsResult c t.module.types result res →
      t.module.types.view type = .fn (xs.map Code.Param.type) res →
      (r.decl.isValid = true → HasItem t p1 (r.decl, ⟨.func, r.decl, c.name name, n.span,
        some ⟨xs, res, b, owner, type⟩, none, none⟩)) →
      Lowers (.body body (if r.decl.isValid then p1.addItem else p1) q b) →
      Lowers (.func owner n name params result body p q)
  -- The functions in the body of a type or an implementation; nothing else may stand there.
  | noMethods {owner p} : Lowers (.methods owner [] p p)
  | consMethods {owner n name nameSpan params result body modifier ss p p1 q} :
      Lowers (.func owner n name params result body p p1) → Lowers (.methods owner ss p1 q) →
      Lowers (.methods owner (.func n name nameSpan params result body modifier :: ss) p q)
  | skipMethod {owner s ss p q f} : s.kind? ≠ some .func → f ∈ t.faults.toList →
      Lowers (.methods owner ss p q) → Lowers (.methods owner (s :: ss) p q)

abbrev LowersValue (e p q L v) := Lowers c t (.value e p q L v)

abbrev LowersPlace (e p q L x) := Lowers c t (.place e p q L x)

abbrev LowersPlaced (e p q L x) := Lowers c t (.placed e p q L x)

abbrev LowersBlock (e p q b) := Lowers c t (.body e p q b)

abbrev LowersArgs (es p q L vs) := Lowers c t (.args es p q L vs)

abbrev LowersElems (l i es p q L) := Lowers c t (.elems l i es p q L)

abbrev LowersArms (chain closed arms p q L chain') :=
  Lowers c t (.arms chain closed arms p q L chain')

abbrev LowersStmts (ss p q L tail) := Lowers c t (.stmts ss p q L tail)

abbrev LowersStmt (s p q L) := Lowers c t (.stmt s p q L)

abbrev LowersFunc (owner n name params result body p q) :=
  Lowers c t (.func owner n name params result body p q)

abbrev LowersMethods (owner ss p q) := Lowers c t (.methods owner ss p q)

/-! ## Whole units -/

inductive LowersTop : Stmt → Pos → Pos → List LineId → Prop
  | var {n name nameSpan type value modifier p q L v i} :
      LowersValue c t value p q L v → Spells c t.module.types type i →
      HasLocal t q ⟨c.name name, varDecl c n, i, modifier⟩ nameSpan →
      HasLine t q (.bind q.slot v) n.span false →
      ((varDecl c n).isValid = true → HasItem t q (varDecl c n,
        ⟨.global, varDecl c n, c.name name, n.span, none, none, some ⟨q.slot, q.line⟩⟩)) →
      LowersTop (.var n name nameSpan type value modifier) p
        (if (varDecl c n).isValid then q.addLocal.addLine.addItem else q.addLocal.addLine)
        (L ++ [q.line])
  | declaration {s p q} : s.isDeclaration = true → LowersStmt c t s p q [] → LowersTop s p q []
  | rejected {s p f} : s.isDeclaration = false →
      (∀ n name nameSpan type value modifier, s ≠ .var n name nameSpan type value modifier) →
      f ∈ t.faults.toList → LowersTop s p p []

inductive LowersProgram : List Stmt → Pos → Pos → List LineId → Prop
  | nil {p} : LowersProgram [] p p []
  | cons {s ss p p1 q L L'} : LowersTop c t s p p1 L → LowersProgram ss p1 q L' →
      LowersProgram (s :: ss) p q (L ++ L')

end UnitCheck.Lowering
