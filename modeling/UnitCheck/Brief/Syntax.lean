import UnitCheck.Brief.Basic
import UnitCheck.Source.Unit
import UnitCheck.Syntax.Build

/-!
# Syntax trees in the brief notation

A node is an object whose member `k` says what it is. Its children are added to the tree first, in
the order in which this module reads them, then its own name, then the node itself; so the notation
fixes every identifier. In place of a node may stand null, for none, or a number, which is the
identifier of a node wherever that may be. Reading fails with what it cannot make sense of.
-/

namespace UnitCheck.Brief

open Syntax

abbrev Reading := ExceptT String (StateM Tree)

def kind (j : Json) : String := word (j "k")

def node {k : IdKind} (j : Json) (read : Reading (Id k)) : Reading (Id k) :=
  match j with
  | .number _ => pure j
  | .obj _ => read
  | _ => pure 0

def nameOf (j : Json) (k : String := "name") : Reading NameId := Build.name (j k)

def literalKind : Json → LiteralKind
  | .number t => ⟨Json.number t⟩
  | j =>
    let names := ["int", "uint", "float", "true", "false", "string", "char"]
    ⟨.ofNat ((names.findIdx? (· == word j)).elim 0 (· + 1))⟩

def armKind : Json → ArmKind
  | .number t => ⟨Json.number t⟩
  | j => ⟨if word j == "elseif" then 1 else if word j == "else" then 2 else 0⟩

def unaryOp : Json → UnaryOp
  | .number t => ⟨Json.number t⟩
  | j => if word j == "!" then .not else .neg

def binaryOp : Json → Except String BinaryOp
  | .number t => pure ⟨Json.number t⟩
  | j => (BinaryOp.ofText? j).elim (throw "operator") pure

/-- A type expression; the fuel is the depth of the document. -/
def readType : Nat → Json → Reading TypeExprId
  | 0, _ => throw "type"
  | fuel + 1, j => node j do
    let s : Span := j "s"
    let m : Modifier := j "mod"
    let elem := readType fuel (j "elem")
    match kind j with
    | "name" => Build.typeName s (← nameOf j) m
    | "array" => Build.arrayType s (← elem) (j "len") m
    | "slice" => Build.sliceType s (← elem) m
    | "ref" => Build.refType s (← elem) (j "mut") m
    | "ptr" => Build.pointerType s (← elem) m
    | "opt" => Build.optionalType s (← elem) m
    | "raw" => Build.type ⟨⟨j "kind"⟩, s, m, 0, 0, 0, 0, false⟩
    | _ => throw "type"

def readMembers (fuel : Nat) (j : Json) : Reading (List Member) := j.items.mapM fun m => do
  let t ← readType fuel (m "type")
  pure ⟨← nameOf m, t, m "s", 0⟩

mutual

def readExpr : Nat → Json → Reading ExprId
  | 0, _ => throw "expression"
  | fuel + 1, j => node j do
    let s : Span := j "s"
    let e := fun k : String => readExpr fuel (j k)
    let es := fun k : String => (j k).items.mapM (readExpr fuel)
    match kind j with
    | "ident" => Build.ident s (← nameOf j)
    | "lit" => Build.literal s (literalKind (j "kind")) (← nameOf j "text")
    | "bin" =>
      let l ← e "l"
      let r ← e "r"
      Build.binary s (← binaryOp (j "op")) l r
    | "un" => Build.unary s (unaryOp (j "op")) (← e "e")
    | "ref" => Build.ref s (j "mut") (← e "e")
    | "deref" => Build.deref s (← e "e")
    | "call" => Build.call s (← e "callee") (← es "args")
    | "index" => Build.index s (← e "target") (← e "index")
    | "field" => Build.field s (← e "target") (← nameOf j)
    | "array" => Build.array s (← readType fuel (j "elem")) (← es "elems")
    | "cast" => Build.cast s (← e "value") (← readType fuel (j "type"))
    | "block" => Build.block s (← (j "stmts").items.mapM (readStmt fuel))
    | "if" => Build.ifElse s (← e "cond") (← e "then") (← (j "arms").items.mapM fun a => do
        let c ← readExpr fuel (a "cond")
        pure ⟨armKind (a "kind"), c, ← readExpr fuel (a "body"), a "s"⟩)
    | "while" => Build.whileLoop s (← e "cond") (← e "body")
    | "for" =>
      let i ← e "iter"
      let b ← e "body"
      Build.forLoop s (← nameOf j) (j "ns") i b
    | "raw" => Build.expr ⟨j "kind"⟩ s (j "payload")
    | _ => throw "expression"

def readStmt : Nat → Json → Reading StmtId
  | 0, _ => throw "statement"
  | fuel + 1, j => node j do
    let s : Span := j "s"
    let ns : Span := j "ns"
    let m : Modifier := j "mod"
    let e := fun k : String => readExpr fuel (j k)
    let t := fun k : String => readType fuel (j k)
    let methods := (j "methods").items.mapM (readStmt fuel)
    match kind j with
    | "var" =>
      let t ← t "type"
      let v ← e "value"
      Build.var s ns (← nameOf j) t v m
    | "assign" => Build.assign s (← e "target") (← e "value")
    | "func" =>
      let ps ← (j "params").items.mapM fun p => do
        let t ← readType fuel (p "type")
        pure ⟨← nameOf p, t, p "mod", p "s", 0⟩
      let r ← t "result"
      let b ← e "body"
      Build.func s ns (← nameOf j) ps r b m
    | "type" =>
      let fs ← readMembers fuel (j "fields")
      let vs ← readMembers fuel (j "variants")
      let ms ← methods
      Build.typeDecl s ns (.ofText (j "kind")) (← nameOf j) fs vs ms
    | "impl" => Build.impl s (← t "trait") (← t "target") (← methods)
    | "expr" => Build.exprStmt s (← e "expr") (j "semi")
    | "return" => Build.jump .return_ s (← e "value")
    | "break" => Build.jump .break_ s (← e "value")
    | "continue" => Build.jump .continue_ s (← e "value")
    | "raw" => Build.stmt ⟨j "kind"⟩ s (j "payload")
    | _ => throw "statement"

end

def files (j : Json) : List UnitFile := j.items.map fun f => ⟨f "path", content f⟩

def unit (j : Json) : Except String SourceUnit :=
  let root := j "root"
  let read : Reading Unit := root.items.forM fun s => do Build.pushRoot (← readStmt root.depth s)
  match read.run.run .empty with
  | (.error e, _) => .error e
  | (.ok _, tree) =>
    .ok ⟨j "name", files (j "files"), tree, (j "faults").items.map fun f : Json => f⟩

/-! ### Showing nodes -/

/-- The nodes of a tree, by identifier from zero to one behind the last. -/
def nodes (t : Tree) : Json :=
  let upTo := fun (n : Nat) (f : Nat → Json) => row ((List.range (n + 2)).map f)
  let stmtView : StmtKind → List Text := fun
    | .return_ | .break_ | .continue_ => ["Jump"]
    | k => if k.isDeclared then [k.toText] else []
  record [("exprs", upTo t.exprs.headers.size fun i => match t.expr? ⟨i⟩ with
      | some h => row [h.kind.toText, true, row (if h.kind.isDeclared then [h.kind.toText] else [])]
      | none => row [.str .empty, i != 0, row []]),
    ("stmts", upTo t.stmts.headers.size fun i => match t.stmt? ⟨i⟩ with
      | some h => row [h.kind.toText, true, h.record.isValid, stmtView h.kind]
      | none => row [.str .empty, i != 0, false, row []]),
    ("types", upTo t.types.size fun i => (t.type? ⟨i⟩).map fun r =>
      row [r.kind.code.toNat, t.names.display r.name, r.elem, r.length.toNat, r.isMut,
        r.modifier.toText, r.span]),
    ("names", (List.range (t.names.size + 1)).map fun i => t.names.display ⟨i⟩)]

end UnitCheck.Brief
