import UnitCheck.Code.Rows
import UnitCheck.Syntax.Wire
import UnitCheck.Ty.Wire

/-!
# Lowered code in files

The packed form of modules. Fields that have nothing to say are left out. Places and chains contain
themselves; reading them goes as deep as the packed value does.
-/

namespace UnitCheck.Code

open Codec

def listCodec {α : Type} (c : Codec α) : Codec (List α) :=
  (items c).map (·.getD []) fun xs => if xs.isEmpty then none else some xs

def tableCodec {α : Type} (c : Codec α) : Codec (Array α) :=
  (items c).map (fun xs => (xs.getD []).toArray) fun xs => some xs.toList

def listUnlessEmpty {α β : Type} (name : String) (c : Codec β) (get : α → List β)
    (set : α → List β → α) : RecordField α :=
  fieldUnless List.isEmpty name (listCodec c) get set

def ifPresent {α β : Type} (name : String) (c : Codec β) (get : α → Option β)
    (set : α → Option β → α) : RecordField α :=
  fieldUnless Option.isNone name (optional c) get set

/-! ### Places and chains -/

def Place.depth : Place → Nat
  | .missing | .slot _ | .unknown _ => 1
  | .index b _ | .deref b | .field b _ => b.depth + 1

def PlaceRow.codec (base : Codec Place) : Codec PlaceRow := record ⟨0, 0, .missing, 0, .empty⟩ [
  field "kind" uint8 (·.kind) ({ · with kind := · }),
  idUnlessZero "local" (·.slot) ({ · with slot := · }),
  fieldUnless (· == .missing) "base" base (·.base) ({ · with base := · }),
  idUnlessZero "index" (·.index) ({ · with index := · }),
  fieldUnless Text.isEmpty "field" text (·.name) ({ · with name := · })]

def Place.codecTo : Nat → Codec Place
  | 0 => ⟨fun _ => .nil, fun _ => none⟩
  | n + 1 => (optional (PlaceRow.codec (codecTo n))).map PlaceRow.toPlaceOrMissing PlaceRow.ofPlace?

def Place.codec : Codec Place := byDepth codecTo depth

def Chain.depth : Chain → Nat
  | .last .. | .orElse .. => 1
  | .orIf _ _ next => next.depth + 1

def ArmRow.codec (next : Codec Chain) : Codec ArmRow := record ⟨0, 0, none⟩ [
  field "kind" uint8 (·.kind) ({ · with kind := · }),
  idUnlessZero "body" (·.body) ({ · with body := · }),
  ifPresent "if" next (·.next) ({ · with next := · })]

def ChainRow.codec (next : Codec Chain) : Codec ChainRow := record ⟨0, 0, none⟩ [
  field "cond" ident (·.cond) ({ · with cond := · }),
  field "body" ident (·.body) ({ · with body := · }),
  ifPresent "else" (ArmRow.codec next) (·.arm) ({ · with arm := · })]

def Chain.codecTo : Nat → Codec Chain
  | 0 => ⟨fun _ => .nil, fun _ => none⟩
  | n + 1 => (ChainRow.codec (codecTo n)).map ChainRow.toChain ChainRow.ofChain

def Chain.codec : Codec Chain := byDepth codecTo depth

/-! ### Values, lines and blocks -/

def LiteralRow.codec : Codec LiteralRow := record ⟨⟨0⟩, .empty⟩ [
  field "kind" Syntax.LiteralKind.codec (·.kind) ({ · with kind := · }),
  field "text" Codec.text (·.text) ({ · with text := · })]

def LoopRow.codec : Codec LoopRow := record ⟨0, 0, 0⟩ [
  field "binding" ident (·.binding) ({ · with binding := · }),
  field "iter" ident (·.iter) ({ · with iter := · }),
  field "body" ident (·.body) ({ · with body := · })]

def ValueRow.codec : Codec ValueRow := record (.ofKind 0) [
  field "kind" uint8 (·.kind) ({ · with kind := · }),
  ifPresent "lit" LiteralRow.codec (·.literal) ({ · with literal := · }),
  fieldUnless (· == .missing) "place" Place.codec (·.place) ({ · with place := · }),
  idUnlessZero "decl" (·.decl) ({ · with decl := · }),
  fieldUnless (·.code == 0) "op" Syntax.BinaryOp.codec (·.op) ({ · with op := · }),
  fieldUnless (·.code == 0) "unary_op" Syntax.UnaryOp.codec (·.unaryOp) ({ · with unaryOp := · }),
  idUnlessZero "left" (·.left) ({ · with left := · }),
  idUnlessZero "right" (·.right) ({ · with right := · }),
  idUnlessZero "operand" (·.operand) ({ · with operand := · }),
  fieldUnless not "mut" bool (·.isMut) ({ · with isMut := · }),
  idUnlessZero "callee" (·.callee) ({ · with callee := · }),
  listUnlessEmpty "args" ident (·.args) ({ · with args := · }),
  listUnlessEmpty "candidates" ident (·.candidates) ({ · with candidates := · }),
  idUnlessZero "type" (·.type) ({ · with type := · }),
  fieldUnless (· == 0) "len" uint32 (·.length) ({ · with length := · }),
  idUnlessZero "block" (·.block) ({ · with block := · }),
  idUnlessZero "cond" (·.cond) ({ · with cond := · }),
  ifPresent "if" Chain.codec (·.chain) ({ · with chain := · }),
  ifPresent "for" LoopRow.codec (·.loop) ({ · with loop := · })]

def Value.codec : Codec Value := ValueRow.codec.map ValueRow.toValue ValueRow.ofValue

def LineRow.codec : Codec LineRow := record ⟨0, 0, .missing, 0⟩ [
  field "kind" uint8 (·.kind) ({ · with kind := · }),
  idUnlessZero "local" (·.slot) ({ · with slot := · }),
  fieldUnless (· == .missing) "place" Place.codec (·.place) ({ · with place := · }),
  idUnlessZero "value" (·.value) ({ · with value := · })]

def Line.codec : Codec Line := LineRow.codec.map LineRow.toLine LineRow.ofLine

def Block.codec : Codec Block := record ⟨[], 0⟩ [
  field "stmts" (listCodec ident) (·.lines) ({ · with lines := · }),
  idUnlessZero "tail" (·.tail) ({ · with tail := · })]

def Local.codec : Codec Local := record ⟨.empty, 0, 0, .default⟩ [
  field "name" text (·.name) ({ · with name := · }),
  idUnlessZero "decl" (·.decl) ({ · with decl := · }),
  idUnlessZero "type" (·.type) ({ · with type := · }),
  fieldUnless (·.code == 0) "modifier" Modifier.codec (·.modifier) ({ · with modifier := · })]

/-! ### Items -/

def Param.codec : Codec Param := record ⟨0, 0, 0⟩ [
  field "local" ident (·.slot) ({ · with slot := · }),
  field "decl" ident (·.decl) ({ · with decl := · }),
  field "type" ident (·.type) ({ · with type := · })]

def Func.codec : Codec Func := record ⟨[], 0, 0, 0, 0⟩ [
  field "params" (listCodec Param.codec) (·.params) ({ · with params := · }),
  field "result" ident (·.result) ({ · with result := · }),
  idUnlessZero "body" (·.body) ({ · with body := · }),
  idUnlessZero "owner" (·.owner) ({ · with owner := · }),
  field "fn_type" ident (·.type) ({ · with type := · })]

def Member.codec : Codec Member := record ⟨0, .empty, 0⟩ [
  field "decl" ident (·.decl) ({ · with decl := · }),
  field "name" text (·.name) ({ · with name := · }),
  field "type" ident (·.type) ({ · with type := · })]

def TypeItem.codec : Codec TypeItem := record ⟨⟨0⟩, 0, [], [], []⟩ [
  field "kind" Syntax.TypeDeclKind.codec (·.kind) ({ · with kind := · }),
  field "type" ident (·.type) ({ · with type := · }),
  listUnlessEmpty "fields" Member.codec (·.fields) ({ · with fields := · }),
  listUnlessEmpty "variants" Member.codec (·.variants) ({ · with variants := · }),
  listUnlessEmpty "methods" ident (·.methods) ({ · with methods := · })]

def Global.codec : Codec Global := record ⟨0, 0⟩ [
  field "local" ident (·.slot) ({ · with slot := · }),
  field "stmt" ident (·.line) ({ · with line := · })]

def Item.codec : Codec Item := record ⟨⟨0⟩, 0, .empty, .zero, none, none, none⟩ [
  field "kind" (uint8.map ItemKind.mk ItemKind.code) (·.kind) ({ · with kind := · }),
  field "decl" ident (·.decl) ({ · with decl := · }),
  field "name" text (·.name) ({ · with name := · }),
  field "span" Span.codec (·.span) ({ · with span := · }),
  ifPresent "func" Func.codec (·.func) ({ · with func := · }),
  ifPresent "type" TypeItem.codec (·.type) ({ · with type := · }),
  ifPresent "global" Global.codec (·.global) ({ · with global := · })]

def Impl.codec : Codec Impl := record ⟨0, 0, [], .zero⟩ [
  field "trait" ident (·.trait) ({ · with trait := · }),
  field "target" ident (·.target) ({ · with target := · }),
  listUnlessEmpty "methods" ident (·.methods) ({ · with methods := · }),
  field "span" Span.codec (·.span) ({ · with span := · })]

/-! ### Modules -/

structure Spans where
  blocks : Array Span
  lines : Array Span
  values : Array Span
  locals : Array Span

def Spans.codec : Codec Spans := record ⟨#[], #[], #[], #[]⟩ [
  field "blocks" (tableCodec Span.codec) (·.blocks) ({ · with blocks := · }),
  field "stmts" (tableCodec Span.codec) (·.lines) ({ · with lines := · }),
  field "exprs" (tableCodec Span.codec) (·.values) ({ · with values := · }),
  field "locals" (tableCodec Span.codec) (·.locals) ({ · with locals := · })]

structure MarkTable where
  lines : List (LineId × Marks)
  values : List (ValueId × Marks)
  locals : List (LocalId × Marks)

def Marks.codec : Codec Marks := uint8.map Marks.mk Marks.bits

def marksField {k : IdKind} (name : String) (get : MarkTable → List (Id k × Marks))
    (set : MarkTable → List (Id k × Marks) → MarkTable) : RecordField MarkTable :=
  fieldUnless List.isEmpty name (idMap Marks.codec) get set

def MarkTable.codec : Codec MarkTable := record ⟨[], [], []⟩ [
  marksField "stmts" (·.lines) ({ · with lines := · }),
  marksField "exprs" (·.values) ({ · with values := · }),
  marksField "locals" (·.locals) ({ · with locals := · })]

def Counters.codec : Codec Counters := record ⟨0, 0, 0, 0⟩ [
  field "blocks" word (·.blocks) ({ · with blocks := · }),
  field "stmts" word (·.lines) ({ · with lines := · }),
  field "exprs" word (·.values) ({ · with values := · }),
  field "locals" word (·.locals) ({ · with locals := · })]

def typesCodec : Codec TypeTable := ⟨TypeTable.codec.encode, fun
  | .nil => some .initial
  | p => TypeTable.codec.decode? p⟩

/-- Items by declaration; of several with one declaration the last one counts. -/
def itemsCodec : Codec (Array (DeclId × Item)) :=
  (idMap Item.codec).map (fun es => es.reverse.toArray) fun es => es.toList.reverse

def Module.codec : Codec Module :=
  record { Module.empty .initial with
      blocks := #[], lines := #[], values := #[], locals := #[]
      blockSpans := #[], lineSpans := #[], valueSpans := #[], localSpans := #[] } [
    field "items" itemsCodec (·.items) ({ · with items := · }),
    field "item_order" (listCodec ident) (·.itemOrder) ({ · with itemOrder := · }),
    listUnlessEmpty "impls" Impl.codec (·.impls) ({ · with impls := · }),
    field "globals" (listCodec ident) (·.globals) ({ · with globals := · }),
    field "blocks" (tableCodec Block.codec) (·.blocks) ({ · with blocks := · }),
    field "stmt_table" (tableCodec Line.codec) (·.lines) ({ · with lines := · }),
    field "expr_table" (tableCodec Value.codec) (·.values) ({ · with values := · }),
    field "locals" (tableCodec Local.codec) (·.locals) ({ · with locals := · }),
    field "spans" Spans.codec
      (fun m => ⟨m.blockSpans, m.lineSpans, m.valueSpans, m.localSpans⟩)
      (fun m x => { m with
        blockSpans := x.blocks, lineSpans := x.lines, valueSpans := x.values,
          localSpans := x.locals }),
    field "attrs" MarkTable.codec (fun m => ⟨m.lineMarks, m.valueMarks, m.localMarks⟩)
      (fun m x => { m with lineMarks := x.lines, valueMarks := x.values, localMarks := x.locals }),
    field "ids" Counters.codec (·.counters) ({ · with counters := · }),
    field "types" typesCodec (·.types) ({ · with types := · })]

end UnitCheck.Code
