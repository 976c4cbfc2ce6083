import UnitCheck.Code.Basic
import UnitCheck.Data.Json

/-!
# Lowered code as a document

A module in JSON. Members that have nothing to say are left out, and maps from identifiers are
ordered by the text of their keys.
-/

namespace UnitCheck

def Id.toJson {k : IdKind} (i : Id k) : Json := Json.ofNat i.index

def Id.field {k : IdKind} (name : String) (i : Id k) : Option (String × Json) :=
  Json.fieldIf i.isValid name i.toJson

def Id.listField {k : IdKind} (name : String) (ids : List (Id k)) : Option (String × Json) :=
  Json.fieldIf (!ids.isEmpty) name (.arr (ids.map Id.toJson))

def Id.mapJson {k : IdKind} (entries : List (Id k × Json)) : Json :=
  .obj ((entries.map fun (i, j) => (Text.ofNat i.index, j)).mergeSort fun a b => a.1.le b.1)

def Span.toJson (s : Span) : Json :=
  .object [Json.field "file" (Json.ofNat s.file.toNat),
    Json.field "start" (Json.ofNat s.start.toNat), Json.field "end" (Json.ofNat s.stop.toNat)]

namespace Code

open Json (field fieldIf)

def Place.toJson : Place → Json
  | .missing => .null
  | .slot l => .object [Json.field "kind" (Json.ofNat 1), l.field "local"]
  | .index b i => .object [Json.field "kind" (Json.ofNat 2),
      fieldIf (b != .missing) "base" b.toJson, i.field "index"]
  | .deref b => .object [Json.field "kind" (Json.ofNat 3), fieldIf (b != .missing) "base" b.toJson]
  | .field b name => .object [Json.field "kind" (Json.ofNat 4),
      fieldIf (b != .missing) "base" b.toJson, fieldIf (!name.isEmpty) "field" (.str name)]
  | .unknown c => .object [Json.field "kind" (Json.ofNat c.1.toNat)]

def Place.member (name : String) (p : Place) : Option (String × Json) :=
  fieldIf (p != .missing) name p.toJson

def Chain.toJson : Chain → Json
  | .last c b => .object [Json.field "cond" c.toJson, Json.field "body" b.toJson]
  | .orElse c b e => .object [Json.field "cond" c.toJson, Json.field "body" b.toJson,
      Json.field "else" (.object [Json.field "kind" (Json.ofNat 1), e.field "body"])]
  | .orIf c b next => .object [Json.field "cond" c.toJson, Json.field "body" b.toJson,
      Json.field "else" (.object [Json.field "kind" (Json.ofNat 2), Json.field "if" next.toJson])]

/-- The members of a value behind its kind. -/
def Value.members : Value → List (Option (String × Json))
  | .poison | .broken _ | .unknown _ | .ifElse none => []
  | .literal k t =>
    [field "lit" (.object [field "kind" (Json.ofNat k.code.toNat), field "text" (.str t)])]
  | .load p => [p.member "place"]
  | .funcRef d => [d.field "decl"]
  | .binary op l r =>
    [fieldIf (op.code != 0) "op" (Json.ofNat op.code.toNat), l.field "left", r.field "right"]
  | .unary op v =>
    [fieldIf (op.code != 0) "unary_op" (Json.ofNat op.code.toNat), v.field "operand"]
  | .ref p isMut => [p.member "place", fieldIf isMut "mut" (.bool true)]
  | .call f args candidates =>
    [f.field "callee", Id.listField "args" args, Id.listField "candidates" candidates]
  | .cast v t => [v.field "operand", t.field "type"]
  | .block b => [b.field "block"]
  | .ifElse (some c) => [field "if" c.toJson]
  | .whileLoop c b => [b.field "block", c.field "cond"]
  | .forLoop l i b =>
    [field "for" (.object [field "binding" l.toJson, field "iter" i.toJson, field "body" b.toJson])]
  | .stackArray t n => [t.field "type", fieldIf (n != 0) "len" (Json.ofNat n.toNat)]

def Value.toJson (v : Value) : Json := .object (field "kind" (Json.ofNat v.code.toNat) :: v.members)

def Line.members : Line → List (Option (String × Json))
  | .bind l v => [l.field "local", v.field "value"]
  | .assign p v => [p.member "place", v.field "value"]
  | .eval v | .return_ v | .break_ v => [v.field "value"]
  | .continue_ | .unknown _ => []

def Line.toJson (l : Line) : Json := .object (field "kind" (Json.ofNat l.code.toNat) :: l.members)

def Block.toJson (b : Block) : Json :=
  .object [field "stmts" (Json.orNull (b.lines.map Id.toJson)), b.tail.field "tail"]

def Local.toJson (l : Local) : Json :=
  .object [field "name" (.str l.name), l.decl.field "decl", l.type.field "type",
    fieldIf (l.modifier.code != 0) "modifier" (Json.ofNat l.modifier.code.toNat)]

/-! ### Items -/

def Param.toJson (p : Param) : Json :=
  .object [field "local" p.slot.toJson, field "decl" p.decl.toJson, field "type" p.type.toJson]

def Func.toJson (f : Func) : Json :=
  .object [field "params" (Json.orNull (f.params.map Param.toJson)), field "result" f.result.toJson,
    f.body.field "body", f.owner.field "owner", field "fn_type" f.type.toJson]

def Member.toJson (m : Member) : Json :=
  .object [field "decl" m.decl.toJson, field "name" (.str m.name), field "type" m.type.toJson]

def Member.listField (name : String) (ms : List Member) : Option (String × Json) :=
  fieldIf (!ms.isEmpty) name (.arr (ms.map Member.toJson))

def TypeItem.toJson (t : TypeItem) : Json :=
  .object [field "kind" (Json.ofNat t.kind.code.toNat), field "type" t.type.toJson,
    Member.listField "fields" t.fields, Member.listField "variants" t.variants,
    Id.listField "methods" t.methods]

def Global.toJson (g : Global) : Json :=
  .object [field "local" g.slot.toJson, field "stmt" g.line.toJson]

def Item.toJson (i : Item) : Json :=
  .object [field "kind" (Json.ofNat i.kind.code.toNat), field "decl" i.decl.toJson,
    field "name" (.str i.name), field "span" i.span.toJson,
    i.func.map fun f => ("func", f.toJson), i.type.map fun t => ("type", t.toJson),
    i.global.map fun g => ("global", g.toJson)]

def Impl.toJson (i : Impl) : Json :=
  .object [field "trait" i.trait.toJson, field "target" i.target.toJson,
    Id.listField "methods" i.methods, field "span" i.span.toJson]

/-! ### Modules -/

def Marks.mapField {k : IdKind} (name : String) (marks : List (Id k × Marks)) :
    Option (String × Json) :=
  fieldIf (!marks.isEmpty) name
    (Id.mapJson ((Id.latest marks).map fun (i, x) => (i, Json.ofNat x.bits.toNat)))

def Module.itemMap (m : Module) : List (DeclId × Item) := Id.latest m.items.toList.reverse

def Module.toJson (m : Module) : Json :=
  .object [field "items" (Id.mapJson (m.itemMap.map fun (d, i) => (d, i.toJson))),
    field "item_order" (Json.orNull (m.itemOrder.map Id.toJson)),
    fieldIf (!m.impls.isEmpty) "impls" (.arr (m.impls.map Impl.toJson)),
    field "globals" (Json.orNull (m.globals.map Id.toJson)),
    field "blocks" (.arr (m.blocks.toList.map Block.toJson)),
    field "stmt_table" (.arr (m.lines.toList.map Line.toJson)),
    field "expr_table" (.arr (m.values.toList.map Value.toJson)),
    field "locals" (.arr (m.locals.toList.map Local.toJson)),
    field "spans" (.object [field "blocks" (.arr (m.blockSpans.toList.map Span.toJson)),
      field "stmts" (.arr (m.lineSpans.toList.map Span.toJson)),
      field "exprs" (.arr (m.valueSpans.toList.map Span.toJson)),
      field "locals" (.arr (m.localSpans.toList.map Span.toJson))]),
    field "attrs" (.object [Marks.mapField "stmts" m.lineMarks, Marks.mapField "exprs" m.valueMarks,
      Marks.mapField "locals" m.localMarks]),
    field "ids" (.object [field "blocks" (Json.ofNat m.counters.blocks),
      field "stmts" (Json.ofNat m.counters.lines), field "exprs" (Json.ofNat m.counters.values),
      field "locals" (Json.ofNat m.counters.locals)])]

end Code

end UnitCheck
