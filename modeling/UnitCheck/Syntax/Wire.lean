import UnitCheck.Data.Codec
import UnitCheck.Syntax.Tree

/-!
# Trees in files

The packed form of a tree: its names, its tables and the statements at the top. Every record is
written with all its fields, annotations included.
-/

namespace UnitCheck

open Codec

def Span.codec : Codec Span := record .zero [
  field "file" uint32 (·.file) ({ · with file := · }),
  field "start" uint32 (·.start) ({ · with start := · }),
  field "end" uint32 (·.stop) ({ · with stop := · })]

def Modifier.codec : Codec Modifier := uint8.map Modifier.mk Modifier.code

namespace Syntax

/-! ### Kinds -/

def StmtKind.codec : Codec StmtKind := uint8.map .mk StmtKind.code
def TypeDeclKind.codec : Codec TypeDeclKind := uint8.map .mk TypeDeclKind.code
def ExprKind.codec : Codec ExprKind := uint8.map .mk ExprKind.code
def LiteralKind.codec : Codec LiteralKind := uint8.map .mk LiteralKind.code
def BinaryOp.codec : Codec BinaryOp := uint8.map .mk BinaryOp.code
def UnaryOp.codec : Codec UnaryOp := uint8.map .mk UnaryOp.code
def ArmKind.codec : Codec ArmKind := uint8.map .mk ArmKind.code
def TypeExprKind.codec : Codec TypeExprKind := uint8.map .mk TypeExprKind.code

/-! ### Records of statements -/

def Header.codec {κ : Type} [Inhabited κ] (kind : Codec κ) : Codec (Header κ) :=
  Codec.record ⟨default, .zero, 0⟩ [
    field "Kind" kind (·.kind) ({ · with kind := · }),
    field "Span" Span.codec (·.span) ({ · with span := · }),
    field "Payload" ident (·.record) ({ · with record := · })]

def VarRecord.codec : Codec VarRecord := record ⟨0, .zero, 0, 0, .default, 0⟩ [
  field "Name" ident (·.name) ({ · with name := · }),
  field "NameSpan" Span.codec (·.nameSpan) ({ · with nameSpan := · }),
  field "Type" ident (·.type) ({ · with type := · }),
  field "Value" ident (·.value) ({ · with value := · }),
  field "Modifier" Modifier.codec (·.modifier) ({ · with modifier := · }),
  field "Decl" ident (·.decl) ({ · with decl := · })]

def AssignRecord.codec : Codec AssignRecord := record ⟨0, 0⟩ [
  field "Target" ident (·.target) ({ · with target := · }),
  field "Value" ident (·.value) ({ · with value := · })]

def Param.codec : Codec Param := record ⟨0, 0, .default, .zero, 0⟩ [
  field "Name" ident (·.name) ({ · with name := · }),
  field "Type" ident (·.type) ({ · with type := · }),
  field "Modifier" Modifier.codec (·.modifier) ({ · with modifier := · }),
  field "Span" Span.codec (·.span) ({ · with span := · }),
  field "Decl" ident (·.decl) ({ · with decl := · })]

def FuncRecord.codec : Codec FuncRecord :=
  record ⟨0, .zero, none, 0, 0, .default, 0, some .root⟩ [
    field "Name" ident (·.name) ({ · with name := · }),
    field "NameSpan" Span.codec (·.nameSpan) ({ · with nameSpan := · }),
    field "Params" (items Param.codec) (·.params) ({ · with params := · }),
    field "Result" ident (·.result) ({ · with result := · }),
    field "Body" ident (·.body) ({ · with body := · }),
    field "Modifier" Modifier.codec (·.modifier) ({ · with modifier := · }),
    field "Decl" ident (·.decl) ({ · with decl := · }),
    field "Scope" scopeId (·.scope) ({ · with scope := · })]

def Member.codec : Codec Member := record ⟨0, 0, .zero, 0⟩ [
  field "Name" ident (·.name) ({ · with name := · }),
  field "Type" ident (·.type) ({ · with type := · }),
  field "Span" Span.codec (·.span) ({ · with span := · }),
  field "Decl" ident (·.decl) ({ · with decl := · })]

def TypeDeclRecord.codec : Codec TypeDeclRecord :=
  record ⟨⟨0⟩, 0, .zero, none, none, none, 0, some .root⟩ [
    field "Kind" TypeDeclKind.codec (·.kind) ({ · with kind := · }),
    field "Name" ident (·.name) ({ · with name := · }),
    field "NameSpan" Span.codec (·.nameSpan) ({ · with nameSpan := · }),
    field "Fields" (items Member.codec) (·.fields) ({ · with fields := · }),
    field "Variants" (items Member.codec) (·.variants) ({ · with variants := · }),
    field "Methods" (items ident) (·.methods) ({ · with methods := · }),
    field "Decl" ident (·.decl) ({ · with decl := · }),
    field "Scope" scopeId (·.scope) ({ · with scope := · })]

def ImplRecord.codec : Codec ImplRecord := record ⟨0, 0, none, some .root⟩ [
  field "Trait" ident (·.trait) ({ · with trait := · }),
  field "Target" ident (·.target) ({ · with target := · }),
  field "Methods" (items ident) (·.methods) ({ · with methods := · }),
  field "Scope" scopeId (·.scope) ({ · with scope := · })]

def ExprStmtRecord.codec : Codec ExprStmtRecord := record ⟨0, false⟩ [
  field "Expr" ident (·.expr) ({ · with expr := · }),
  field "Semicolon" bool (·.semicolon) ({ · with semicolon := · })]

def JumpRecord.codec : Codec JumpRecord := record ⟨0⟩ [
  field "Value" ident (·.value) ({ · with value := · })]

/-! ### Records of expressions -/

def IdentRecord.codec : Codec IdentRecord := record ⟨0, 0⟩ [
  field "Name" ident (·.name) ({ · with name := · }),
  field "Decl" ident (·.decl) ({ · with decl := · })]

def LiteralRecord.codec : Codec LiteralRecord := record ⟨⟨0⟩, 0⟩ [
  field "Kind" LiteralKind.codec (·.kind) ({ · with kind := · }),
  field "Value" ident (·.value) ({ · with value := · })]

def BinaryRecord.codec : Codec BinaryRecord := record ⟨⟨0⟩, 0, 0⟩ [
  field "Op" BinaryOp.codec (·.op) ({ · with op := · }),
  field "Left" ident (·.left) ({ · with left := · }),
  field "Right" ident (·.right) ({ · with right := · })]

def UnaryRecord.codec : Codec UnaryRecord := record ⟨⟨0⟩, 0⟩ [
  field "Op" UnaryOp.codec (·.op) ({ · with op := · }),
  field "Operand" ident (·.operand) ({ · with operand := · })]

def RefRecord.codec : Codec RefRecord := record ⟨false, 0⟩ [
  field "Mut" bool (·.isMut) ({ · with isMut := · }),
  field "Value" ident (·.value) ({ · with value := · })]

def DerefRecord.codec : Codec DerefRecord := record ⟨0⟩ [
  field "Value" ident (·.value) ({ · with value := · })]

def CallRecord.codec : Codec CallRecord := record ⟨0, none, none⟩ [
  field "Callee" ident (·.callee) ({ · with callee := · }),
  field "Args" (items ident) (·.args) ({ · with args := · }),
  field "Candidates" (items ident) (·.candidates) ({ · with candidates := · })]

def IndexRecord.codec : Codec IndexRecord := record ⟨0, 0⟩ [
  field "Target" ident (·.target) ({ · with target := · }),
  field "Index" ident (·.index) ({ · with index := · })]

def FieldRecord.codec : Codec FieldRecord := record ⟨0, 0⟩ [
  Codec.field "Target" ident (·.target) ({ · with target := · }),
  Codec.field "Field" ident (·.field) ({ · with field := · })]

def ArrayRecord.codec : Codec ArrayRecord := record ⟨none, 0⟩ [
  field "Elems" (items ident) (·.elems) ({ · with elems := · }),
  field "ElemType" ident (·.elemType) ({ · with elemType := · })]

def CastRecord.codec : Codec CastRecord := record ⟨0, 0⟩ [
  field "Value" ident (·.value) ({ · with value := · }),
  field "Type" ident (·.type) ({ · with type := · })]

def BlockRecord.codec : Codec BlockRecord := record ⟨none, some .root⟩ [
  field "Stmts" (items ident) (·.stmts) ({ · with stmts := · }),
  field "Scope" scopeId (·.scope) ({ · with scope := · })]

def ArmRecord.codec : Codec ArmRecord := record ⟨⟨0⟩, 0, 0, .zero⟩ [
  field "Kind" ArmKind.codec (·.kind) ({ · with kind := · }),
  field "Cond" ident (·.cond) ({ · with cond := · }),
  field "Body" ident (·.body) ({ · with body := · }),
  field "Span" Span.codec (·.span) ({ · with span := · })]

def IfRecord.codec : Codec IfRecord := record ⟨0, 0, none⟩ [
  field "Cond" ident (·.cond) ({ · with cond := · }),
  field "Then" ident (·.body) ({ · with body := · }),
  field "Arms" (items ArmRecord.codec) (·.arms) ({ · with arms := · })]

def WhileRecord.codec : Codec WhileRecord := record ⟨0, 0⟩ [
  field "Cond" ident (·.cond) ({ · with cond := · }),
  field "Body" ident (·.body) ({ · with body := · })]

def ForRecord.codec : Codec ForRecord := record ⟨0, .zero, 0, 0, 0, some .root⟩ [
  field "Binding" ident (·.binding) ({ · with binding := · }),
  field "BindingSpan" Span.codec (·.bindingSpan) ({ · with bindingSpan := · }),
  field "Decl" ident (·.decl) ({ · with decl := · }),
  field "Iter" ident (·.iter) ({ · with iter := · }),
  field "Body" ident (·.body) ({ · with body := · }),
  field "Scope" scopeId (·.scope) ({ · with scope := · })]

def TypeRecord.codec : Codec TypeRecord := record ⟨⟨0⟩, .zero, .default, 0, 0, 0, 0, false⟩ [
  field "Kind" TypeExprKind.codec (·.kind) ({ · with kind := · }),
  field "Span" Span.codec (·.span) ({ · with span := · }),
  field "Modifier" Modifier.codec (·.modifier) ({ · with modifier := · }),
  field "Name" ident (·.name) ({ · with name := · }),
  field "Decl" ident (·.decl) ({ · with decl := · }),
  field "Elem" ident (·.elem) ({ · with elem := · }),
  field "Len" uint32 (·.length) ({ · with length := · }),
  field "Mut" bool (·.isMut) ({ · with isMut := · })]

/-! ### Tables -/

def Arena.codec {α : Type} (c : Codec α) : Codec (Arena α) :=
  (items c).map (fun xs => ⟨xs.map List.toArray⟩) fun a => a.rows.map Array.toList

def Arena.absent {α : Type} : Arena α := ⟨none⟩

def Stmts.absent : Stmts :=
  ⟨.absent, .absent, .absent, .absent, .absent, .absent, .absent, .absent⟩

def Stmts.codec : Codec Stmts := record .absent [
  field "Arena" (Arena.codec (Header.codec StmtKind.codec)) (·.headers) ({ · with headers := · }),
  field "Vars" (Arena.codec VarRecord.codec) (·.vars) ({ · with vars := · }),
  field "Assigns" (Arena.codec AssignRecord.codec) (·.assigns) ({ · with assigns := · }),
  field "Funcs" (Arena.codec FuncRecord.codec) (·.funcs) ({ · with funcs := · }),
  field "TypeDecls" (Arena.codec TypeDeclRecord.codec) (·.typeDecls) ({ · with typeDecls := · }),
  field "Impls" (Arena.codec ImplRecord.codec) (·.impls) ({ · with impls := · }),
  field "Exprs" (Arena.codec ExprStmtRecord.codec) (·.exprs) ({ · with exprs := · }),
  field "Jumps" (Arena.codec JumpRecord.codec) (·.jumps) ({ · with jumps := · })]

def Exprs.absent : Exprs :=
  ⟨.absent, .absent, .absent, .absent, .absent, .absent, .absent, .absent, .absent, .absent,
   .absent, .absent, .absent, .absent, .absent, .absent⟩

def Exprs.codec : Codec Exprs := record .absent [
  field "Arena" (Arena.codec (Header.codec ExprKind.codec)) (·.headers) ({ · with headers := · }),
  field "Idents" (Arena.codec IdentRecord.codec) (·.idents) ({ · with idents := · }),
  field "Literals" (Arena.codec LiteralRecord.codec) (·.literals) ({ · with literals := · }),
  field "Binaries" (Arena.codec BinaryRecord.codec) (·.binaries) ({ · with binaries := · }),
  field "Unaries" (Arena.codec UnaryRecord.codec) (·.unaries) ({ · with unaries := · }),
  field "Refs" (Arena.codec RefRecord.codec) (·.refs) ({ · with refs := · }),
  field "Derefs" (Arena.codec DerefRecord.codec) (·.derefs) ({ · with derefs := · }),
  field "Calls" (Arena.codec CallRecord.codec) (·.calls) ({ · with calls := · }),
  field "Indices" (Arena.codec IndexRecord.codec) (·.indices) ({ · with indices := · }),
  field "Fields" (Arena.codec FieldRecord.codec) (·.fields) ({ · with fields := · }),
  field "Arrays" (Arena.codec ArrayRecord.codec) (·.arrays) ({ · with arrays := · }),
  field "Casts" (Arena.codec CastRecord.codec) (·.casts) ({ · with casts := · }),
  field "Blocks" (Arena.codec BlockRecord.codec) (·.blocks) ({ · with blocks := · }),
  field "Ifs" (Arena.codec IfRecord.codec) (·.ifs) ({ · with ifs := · }),
  field "Whiles" (Arena.codec WhileRecord.codec) (·.whiles) ({ · with whiles := · }),
  field "Fors" (Arena.codec ForRecord.codec) (·.fors) ({ · with fors := · })]

def typesCodec : Codec (Arena TypeRecord) := record .absent [
  field "Arena" (Arena.codec TypeRecord.codec) (fun a => a) fun _ x => x]

/-! ### Trees -/

structure TreeParts where
  names : Option (List Text)
  stmts : Option Stmts
  exprs : Option Exprs
  types : Option (Arena TypeRecord)
  root : Option (List StmtId)

def TreeParts.codec : Codec TreeParts := record ⟨none, none, none, none, none⟩ [
  field "strings" (items text) (·.names) ({ · with names := · }),
  field "stmts" (optional Stmts.codec) (·.stmts) ({ · with stmts := · }),
  field "exprs" (optional Exprs.codec) (·.exprs) ({ · with exprs := · }),
  field "types" (optional typesCodec) (·.types) ({ · with types := · }),
  field "root" (items ident) (·.root) ({ · with root := · })]

def Tree.parts (t : Tree) : TreeParts :=
  ⟨some t.names.names.toList, some t.stmts, some t.exprs, some t.types, t.root⟩

/-- The tree with the given parts; tables that are left out altogether are empty. -/
def Tree.ofParts (p : TreeParts) : Tree :=
  ⟨.restore (p.names.getD []), p.stmts.getD .empty, p.exprs.getD .empty, p.types.getD .empty,
    p.root⟩

def Tree.codec : Codec Tree := TreeParts.codec.map .ofParts Tree.parts

end Syntax

end UnitCheck
