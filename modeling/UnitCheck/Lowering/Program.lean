import UnitCheck.Lowering.Types

/-!
# Lowering

A resolved program becomes a module of lowered code:

* an array literal becomes a new slot that is filled element by element;
* `if` with its arms becomes a chain of branches;
* what has to have a place and has none (the operand of `&`, `*`, `[]` and `.`) is put into a new
  slot first.

Loops over the elements of something are kept as they are. What cannot be lowered is a fault and
leaves poison behind; lowering always goes on.

An expression can be used in three ways: for its value, as a place and as the body of something. An
`Use` holds the three, so that each expression is described once.
-/

namespace UnitCheck.Lowering

open Code Syntax

structure Use where
  /-- For its value; zero if there is no expression. -/
  value : Lower ValueId
  /-- As a place, if it is one; otherwise nothing happens. -/
  place : Lower (Option Place)
  /-- As the body of a function, a branch or a loop. -/
  block : Lower BlockId

namespace Use

def none : Use := ⟨return 0, return Option.none, return 0⟩

def broken : Use := ⟨throw .malformed, throw .malformed, throw .malformed⟩

def bodyOf (span : Span) (value : Lower ValueId) : Lower BlockId :=
  inBlock span fun b => do setTail b (← value)

def ofValue (span : Span) (value : Lower ValueId) : Use :=
  ⟨value, return Option.none, bodyOf span value⟩

/-- An expression that is a place; its value is what the place holds. -/
def ofPlace (span : Span) (place : Lower Place) : Use :=
  let value := do newValue (.load (← place)) span
  ⟨value, some <$> place, bodyOf span value⟩

/-- A block; its value is that of its last expression. -/
def ofBlock (span : Span) (block : Lower BlockId) : Use :=
  ⟨do newValue (.block (← block)) span, return Option.none, block⟩

/-- An expression as a place; a value without place is put into a new slot. -/
def placed (u : Use) : Lower Place := do
  match ← u.place with
  | some p => return p
  | Option.none =>
    let v ← u.value
    let span := (← get).module.valueSpan v
    let l ← newTemp "tmp" 0 span
    emitSynthetic (.bind l v) span
    return .slot l

end Use

/-! ### Pieces of expressions -/

def useIdent (c : Context) (n : ExprNode) (name : NameId) : Use :=
  let decl := ((c.tree.exprs.idents.get? n.record.index).map IdentRecord.decl).getD 0
  let poison := newValue .poison n.span
  match c.decls.get? decl with
  | none => .ofValue n.span poison
  | some d =>
    match d.kind with
    | .var | .param =>
      let value : Lower ValueId := do
        let l := (← get).slotOf name decl
        if l.isValid then newValue (.load (.slot l)) n.span
        else
          report (.internal n.span ("no local slot for '" ++ c.name name ++ "'"))
          poison
      let place : Lower (Option Place) := do
        let l := (← get).slotOf name decl
        return if l.isValid then some (.slot l) else none
      ⟨value, place, Use.bodyOf n.span value⟩
    | .function => .ofValue n.span (newValue (.funcRef decl) n.span)
    | kind => .ofValue n.span do
      invalidContext n.span ("'" ++ c.name name ++ "' is a " ++ kind.toText ++ ", not a value")
      poison

/-- Fills the slot of an array literal, from element `i` on. -/
def fillArray (l : LocalId) : Nat → List (Lower ValueId) → Lower Unit
  | _, [] => pure ()
  | i, e :: es => do
    let v ← e
    let span := (← get).module.valueSpan v
    let index ← newValue (.literal .uint (Text.ofNat i)) span
    markValue index .synthetic
    emitSynthetic (.assign (.index (.slot l) index) v) span
    fillArray l (i + 1) es

/-- An array literal: a new slot, its contents, and what it then holds. -/
def makeArray (c : Context) (n : ExprNode) (elemType : TypeExpr) (elems : List (Lower ValueId)) :
    Lower ValueId := do
  let length := UInt32.ofNat elems.length
  let elem ← lowerType c elemType
  let type ← if elem.isValid then onTypes (·.intern (Shape.array .stack elem length)) else pure 0
  let l ← newTemp "array" type n.span
  let alloc ← newValue (.stackArray elem length) n.span
  markValue alloc .synthetic
  emitSynthetic (.bind l alloc) n.span
  fillArray l 0 elems
  modify fun s => { s with arrays := s.arrays.push (l, length) }
  let out ← newValue (.load (.slot l)) n.span
  markValue out .synthetic
  return out

def lowerArray (c : Context) (n : ExprNode) (elemType : TypeExpr) (elems : List (Lower ValueId)) :
    Lower ValueId :=
  if elems.length < UInt32.size then makeArray c n elemType elems
  else do
    invalidContext n.span "array literal has too many elements"
    newValue .poison n.span

def lowerFor (c : Context) (n : ExprNode) (binding : NameId) (bindingSpan : Span)
    (iter : Lower ValueId) (body : Lower BlockId) : Lower ValueId := do
  report (.warning .unstableFeature n.span
    "for-loops are not finalized; the loop is kept but not lowered")
  let i ← iter
  let decl := ((c.tree.exprs.fors.get? n.record.index).map ForRecord.decl).getD 0
  let (l, b) ← withSlots do
    let l ← newLocal ⟨c.name binding, decl, 0, .default⟩ bindingSpan
    bindSlot binding decl l
    return (l, ← body)
  let out ← newValue (.forLoop l i b) n.span
  markValue out .unstable
  return out

/-! ### Pieces of statements -/

/-- A variable: its value first, so that the value sees an outer variable of the same name. -/
def lowerVar (c : Context) (n : StmtNode) (name : NameId) (nameSpan : Span) (type : TypeExpr)
    (value : Lower ValueId) (modifier : Modifier) : Lower (LocalId × LineId × DeclId) := do
  let v ← value
  let decl := ((c.tree.stmts.vars.get? n.record.index).map VarRecord.decl).getD 0
  let t ← lowerType c type
  let l ← newLocal ⟨c.name name, decl, t, modifier⟩ nameSpan
  bindSlot name decl l
  return (l, ← emit (.bind l v) n.span, decl)

/-- An assignment. If the target is a name that was not found, or no place at all, the value is
still computed. -/
def lowerAssign (c : Context) (n : StmtNode) (target : Expr) (u : Use) (value : Lower ValueId) :
    Lower Unit := do
  let evaluate : Lower Unit := do
    let v ← value
    discard (emit (.eval v) n.span)
  let unresolved := match target with
    | .ident t _ =>
      !(((c.tree.exprs.idents.get? t.record.index).map IdentRecord.decl).getD 0).isValid
    | _ => false
  if unresolved then evaluate
  else
    match ← u.place with
    | some p =>
      let v ← value
      discard (emit (.assign p v) n.span)
    | none =>
      let t ← Run.need target.node?
      invalidContext t.span "left side of assignment is not assignable"
      evaluate

def lowerParams (c : Context) (decls : List DeclId) : List ParamForm → Lower (List Code.Param)
  | [] => return []
  | p :: ps => do
    let type ← lowerType c p.type
    let decl := decls.headD 0
    let l ← newLocal ⟨c.name p.name, decl, type, p.modifier⟩ p.span
    bindSlot p.name decl l
    return ⟨l, decl, type⟩ :: (← lowerParams c (decls.drop 1) ps)

/-- A function. Its item is there before its body is lowered, and none of the slots around it can be
seen from inside. -/
def lowerFunc (c : Context) (n : StmtNode) (owner : DeclId) (name : NameId)
    (params : List ParamForm) (result : TypeExpr) (body : Option (Lower BlockId)) :
    Lower DeclId := do
  let r ← Run.need (c.tree.stmts.funcs.get? n.record.index)
  let saved := (← get).slots
  modify fun s => { s with slots := [[]] }
  let declared ← lowerType c result
  let result := if result.id.isValid then declared else Builtin.unit
  let params ← lowerParams c ((r.params.getD []).map Syntax.Param.decl) params
  let type ← onTypes (·.fn (params.map Code.Param.type) result)
  let f : Func := ⟨params, result, 0, owner, type⟩
  let item? ← if r.decl.isValid then
      some <$> onModule (·.addItem ⟨.func, r.decl, c.name name, n.span, some f, none, none⟩)
    else pure none
  if let some lower := body then
    let b ← lower
    if let some at_ := item? then
      modifyModule (·.modifyItem at_ fun i => { i with func := some { f with body := b } })
  modify fun s => { s with slots := saved }
  return r.decl

def lowerMembers (c : Context) (decls : List DeclId) : List MemberForm → Lower (List Code.Member)
  | [] => return []
  | m :: ms => do
    let type ← lowerType c m.type
    return ⟨decls.headD 0, c.name m.name, type⟩ :: (← lowerMembers c (decls.drop 1) ms)

/-- A declared type; `methods` lowers what stands inside. -/
def lowerTypeDecl (c : Context) (n : StmtNode) (kind : TypeDeclKind) (name : NameId)
    (fields variants : List MemberForm) (methods : DeclId → Lower (List DeclId)) :
    Lower Unit := do
  let r ← Run.need (c.tree.stmts.typeDecls.get? n.record.index)
  if r.decl.isValid then
    let type ← onTypes (·.named r.decl (c.name name))
    let fields ← lowerMembers c ((r.fields.getD []).map Syntax.Member.decl) fields
    let variants ← lowerMembers c ((r.variants.getD []).map Syntax.Member.decl) variants
    let t : TypeItem := ⟨kind, type, fields, variants, []⟩
    let at_ ← onModule (·.addItem ⟨.type, r.decl, c.name name, n.span, none, some t, none⟩)
    let ms ← methods r.decl
    modifyModule (·.modifyItem at_ fun i => { i with type := some { t with methods := ms } })

/-- A block that implements a trait; `methods` lowers what stands inside. -/
def lowerImpl (c : Context) (n : StmtNode) (trait target : TypeExpr)
    (methods : DeclId → Lower (List DeclId)) : Lower Unit := do
  let type ← lowerType c target
  let declOf := fun t : TypeExpr =>
    ((t.node?.bind fun n => c.tree.type? n.id).map TypeRecord.decl).getD 0
  let ms ← methods (declOf target)
  modifyModule fun m => { m with impls := m.impls ++ [⟨declOf trait, type, ms, n.span⟩] }

/-! ### Programs -/

mutual

def useExpr (c : Context) : Expr → Use
  | .absent _ => .none
  | .lost => .broken
  | .bare n kind =>
    if kind = .ident ∨ kind = .index ∨ kind = .field ∨ kind = .deref ∨ kind = .block then .broken
    else .ofValue n.span <|
      if kind.isDeclared then throw .malformed
      else do
        report (.internal n.span ("unexpected expression kind " ++ kind.toText))
        newValue .poison n.span
  | .ident n name => useIdent c n name
  | .literal n kind value => .ofValue n.span (newValue (.literal kind (c.name value)) n.span)
  | .binary n op left right => .ofValue n.span do
    let l ← (useExpr c left).value
    let r ← (useExpr c right).value
    newValue (.binary op l r) n.span
  | .unary n op operand => .ofValue n.span do
    newValue (.unary op (← (useExpr c operand).value)) n.span
  | .ref n isMut value => .ofValue n.span do
    newValue (.ref (← (useExpr c value).placed) isMut) n.span
  | .deref n value => .ofPlace n.span do return .deref (← (useExpr c value).placed)
  | .call n callee args => .ofValue n.span do
    let f ← (useExpr c callee).value
    let xs ← lowerArgs c args
    let r ← Run.need (c.tree.exprs.calls.get? n.record.index)
    newValue (.call f xs (r.candidates.getD [])) n.span
  | .index n target index => .ofPlace n.span do
    let base ← (useExpr c target).placed
    return .index base (← (useExpr c index).value)
  | .field n target field => .ofPlace n.span do
    return .field (← (useExpr c target).placed) (c.name field)
  | .array n elems elemType => .ofValue n.span (lowerArray c n elemType (useElems c elems))
  | .cast n value type => .ofValue n.span do
    let v ← (useExpr c value).value
    newValue (.cast v (← lowerType c type)) n.span
  | .block n stmts => .ofBlock n.span (inBlock n.span fun b => lowerBody c b stmts)
  | .ifElse n cond body arms => .ofValue n.span do
    let v ← (useExpr c cond).value
    let b ← (useExpr c body).block
    newValue (.ifElse (some (← lowerArms c (.last v b) false arms))) n.span
  | .whileLoop n cond body => .ofValue n.span do
    let v ← (useExpr c cond).value
    newValue (.whileLoop v (← (useExpr c body).block)) n.span
  | .forLoop n binding bindingSpan iter body =>
    .ofValue n.span
      (lowerFor c n binding bindingSpan (useExpr c iter).value (useExpr c body).block)

def lowerArgs (c : Context) : List Expr → Lower (List ValueId)
  | [] => return []
  | e :: es => do
    let v ← (useExpr c e).value
    return v :: (← lowerArgs c es)

def useElems (c : Context) : List Expr → List (Lower ValueId)
  | [] => []
  | e :: es => (useExpr c e).value :: useElems c es

/-- Adds arms to a chain. Nothing behind a plain `else` is lowered. -/
def lowerArms (c : Context) (chain : Chain) (closed : Bool) : List Arm → Lower Chain
  | [] => return chain
  | .mk kind cond body span :: arms => do
    if closed then
      invalidContext span "'else' branch after the final 'else'"
      lowerArms c chain closed arms
    else
      match kind with
      | .plain =>
        let b ← (useExpr c body).block
        lowerArms c (chain.close b) true arms
      | .elseIf =>
        let v ← (useExpr c cond).value
        let b ← (useExpr c body).block
        lowerArms c (chain.snoc v b) false arms
      | _ => lowerArms c chain closed arms

/-- The statements of a block. A last expression without semicolon is the block's value. -/
def lowerBody (c : Context) (b : BlockId) : List Stmt → Lower Unit
  | [] => pure ()
  | [.expr _ e false] => do setTail b (← (useExpr c e).value)
  | s :: ss => do
    lowerStmt c s
    lowerBody c b ss

def lowerStmt (c : Context) : Stmt → Lower Unit
  | .absent _ => pure ()
  | .lost => throw .malformed
  | .bare n kind =>
    if kind.isDeclared then throw .malformed
    else report (.internal n.span ("unexpected statement kind " ++ kind.toText))
  | .var n name nameSpan type value modifier =>
    discard (lowerVar c n name nameSpan type (useExpr c value).value modifier)
  | .assign n target value =>
    lowerAssign c n target (useExpr c target) (useExpr c value).value
  | .func n name _ params result body _ => inGlobals do
    let block := if body.isGiven then some (useExpr c body).block else none
    discard (lowerFunc c n 0 name params result block)
  | .typeDecl n kind name _ fields variants methods =>
    inGlobals (lowerTypeDecl c n kind name fields variants fun d => lowerMethods c d methods)
  | .impl n trait target methods =>
    inGlobals (lowerImpl c n trait target fun d => lowerMethods c d methods)
  | .expr n e _ => do
    let v ← (useExpr c e).value
    discard (emit (.eval v) n.span)
  | .jump n kind value => do
    match kind with
    | .return_ =>
      let v ← (useExpr c value).value
      discard (emit (.return_ v) n.span)
    | .break_ =>
      let v ← (useExpr c value).value
      discard (emit (.break_ v) n.span)
    | .continue_ =>
      if value.isGiven then
        let v ← Run.need value.node?
        invalidContext v.span "'continue' cannot carry a value"
      discard (emit .continue_ n.span)

def lowerMethods (c : Context) (owner : DeclId) : List Stmt → Lower (List DeclId)
  | [] => return []
  | s :: ss => do
    let d ← match s with
      | .func n name _ params result body _ =>
        let block := if body.isGiven then some (useExpr c body).block else none
        lowerFunc c n owner name params result block
      | .absent _ => pure 0
      | .lost => throw .malformed
      | s => do
        let n ← Run.need s.node?
        let kind ← Run.need s.kind?
        if kind = .func then throw .malformed
        invalidContext n.span
          ("only functions may appear in a type or impl body, found '" ++ kind.toText ++ "'")
        pure 0
    let ds ← lowerMethods c owner ss
    return if d.isValid then d :: ds else ds

end

/-- A statement at the top of a unit. Only declarations may stand there. -/
def lowerTop (c : Context) (s : Stmt) : Lower Unit := do
  match s with
  | .absent _ => pure ()
  | .lost => throw .malformed
  | .var n name nameSpan type value modifier =>
    let (l, line, decl) ← lowerVar c n name nameSpan type (useExpr c value).value modifier
    if decl.isValid then
      discard (onModule (·.addItem
        ⟨.global, decl, c.name name, n.span, none, none, some ⟨l, line⟩⟩))
  | .func .. | .typeDecl .. | .impl .. => lowerStmt c s
  | .assign n _ _ => invalidContext n.span "assignment is not allowed at global scope"
  | .expr n _ _ => invalidContext n.span "expression statement is not allowed at global scope"
  | .jump n kind _ =>
    invalidContext n.span ("'" ++ kind.kind.toText ++ "' is not allowed at global scope")
  | .bare n kind =>
    match kind with
    | .assign => invalidContext n.span "assignment is not allowed at global scope"
    | .expr => invalidContext n.span "expression statement is not allowed at global scope"
    | .var | .func | .typeDecl | .impl => throw .malformed
    | _ => invalidContext n.span ("'" ++ kind.toText ++ "' is not allowed at global scope")

def lowerProgram (c : Context) : List Stmt → Lower Unit
  | [] => pure ()
  | s :: ss => do
    lowerTop c s
    lowerProgram c ss

structure Lowered where
  module : Module
  faults : List Fault
  /-- The slots and lengths of array literals, in the order in which they were finished. -/
  arrays : List (LocalId × UInt32)

def lower (tree : Tree) (decls : Decls) : Except Abort Lowered :=
  let s : State := ⟨.empty .initial, none, [[]], [], 0, #[], #[]⟩
  match lowerProgram ⟨tree, decls⟩ tree.program s with
  | .ok _ s => .ok ⟨s.module, s.faults.toList, s.arrays.toList⟩
  | .error e _ => .error e

end UnitCheck.Lowering
