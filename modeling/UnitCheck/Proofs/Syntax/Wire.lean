import UnitCheck.Syntax.Wire
import UnitCheck.Proofs.Data.Codec
import UnitCheck.Proofs.Name

/-!
# Trees are read as they were written

The records of a tree are faithful, but for the scopes that some of them are annotated with: a scope
is written as a word, of which one stands for a missing scope. `Tree.ScopesFit` says that the scopes
of a tree are among the others.
-/

namespace UnitCheck

open Codec

def ScopeId.Fits (s : Option ScopeId) : Prop := ∀ i ∈ s, i.index < ScopeId.noneWord.toNat

instance (s : Option ScopeId) : Decidable (ScopeId.Fits s) :=
  inferInstanceAs (Decidable (∀ i ∈ s, _))

theorem Codec.reads_scopeId {s : Option ScopeId} (h : ScopeId.Fits s) : scopeId.Reads s s := by
  refine fun hfits => (reads_map (Faithful.reads _) hfits).trans (congrArg some ?_)
  cases s with
  | none => rfl
  | some i =>
    have hlt : i.index < 2 ^ 32 - 1 := h i rfl
    have hword : (ScopeId.toWord? (some i)).toNat = i.index := Nat.mod_eq_of_lt (by omega)
    have hne : ScopeId.toWord? (some i) ≠ ScopeId.noneWord := fun heq =>
      Nat.ne_of_lt (h i rfl) (heq ▸ hword.symm)
    exact (if_neg hne).trans (congrArg (some ∘ Id.mk) hword)

instance : Span.codec.Faithful := faithful_record
instance : Modifier.codec.Faithful := faithful_map

namespace Syntax

/-! ## Records -/

instance : StmtKind.codec.Faithful := faithful_map
instance : TypeDeclKind.codec.Faithful := faithful_map
instance : ExprKind.codec.Faithful := faithful_map
instance : LiteralKind.codec.Faithful := faithful_map
instance : BinaryOp.codec.Faithful := faithful_map
instance : UnaryOp.codec.Faithful := faithful_map
instance : ArmKind.codec.Faithful := faithful_map
instance : TypeExprKind.codec.Faithful := faithful_map

instance {κ : Type} [Inhabited κ] {kind : Codec κ} [kind.Faithful] : (Header.codec kind).Faithful :=
  ⟨fun _ => reads_record (.plain <| .plain <| .plain <| .nil _)
    (show Named ["Kind", "Span", "Payload"] by decide)⟩

instance : VarRecord.codec.Faithful := faithful_record
instance : AssignRecord.codec.Faithful := faithful_record
instance : Param.codec.Faithful := faithful_record
instance : Member.codec.Faithful := faithful_record
instance : ExprStmtRecord.codec.Faithful := faithful_record
instance : JumpRecord.codec.Faithful := faithful_record
instance : IdentRecord.codec.Faithful := faithful_record
instance : LiteralRecord.codec.Faithful := faithful_record
instance : BinaryRecord.codec.Faithful := faithful_record
instance : UnaryRecord.codec.Faithful := faithful_record
instance : RefRecord.codec.Faithful := faithful_record
instance : DerefRecord.codec.Faithful := faithful_record
instance : CallRecord.codec.Faithful := faithful_record
instance : IndexRecord.codec.Faithful := faithful_record
instance : FieldRecord.codec.Faithful := faithful_record
instance : ArrayRecord.codec.Faithful := faithful_record
instance : CastRecord.codec.Faithful := faithful_record
instance : ArmRecord.codec.Faithful := faithful_record
instance : IfRecord.codec.Faithful := faithful_record
instance : WhileRecord.codec.Faithful := faithful_record
instance : TypeRecord.codec.Faithful := faithful_record

theorem FuncRecord.reads {r : FuncRecord} (h : ScopeId.Fits r.scope) : codec.Reads r r :=
  reads_record <| .plain <| .plain <| .plain <| .plain <| .plain <| .plain <| .plain <|
    .reads (reads_scopeId h) <| .nil _

theorem TypeDeclRecord.reads {r : TypeDeclRecord} (h : ScopeId.Fits r.scope) : codec.Reads r r :=
  reads_record <| .plain <| .plain <| .plain <| .plain <| .plain <| .plain <| .plain <|
    .reads (reads_scopeId h) <| .nil _

theorem ImplRecord.reads {r : ImplRecord} (h : ScopeId.Fits r.scope) : codec.Reads r r :=
  reads_record <| .plain <| .plain <| .plain <| .reads (reads_scopeId h) <| .nil _

theorem BlockRecord.reads {r : BlockRecord} (h : ScopeId.Fits r.scope) : codec.Reads r r :=
  reads_record <| .plain <| .reads (reads_scopeId h) <| .nil _

theorem ForRecord.reads {r : ForRecord} (h : ScopeId.Fits r.scope) : codec.Reads r r :=
  reads_record <| .plain <| .plain <| .plain <| .plain <| .plain <| .reads (reads_scopeId h) <|
    .nil _

/-! ## Tables and trees -/

theorem Arena.reads {α : Type} {c : Codec α} {a : Arena α} (h : ∀ x ∈ a.toArray, c.Reads x x) :
    (Arena.codec c).Reads a a := by
  obtain ⟨_ | rows⟩ := a
  · exact fun _ => rfl
  · have hrows := reads_items fun x hx => h x (Array.mem_toList_iff.1 hx)
    exact reads_map (g := fun a : Arena α => a.rows.map Array.toList) (x := ⟨some rows⟩) hrows

instance Arena.faithful {α : Type} {c : Codec α} [c.Faithful] : (Arena.codec c).Faithful :=
  ⟨fun _ => reads fun x _ => Faithful.reads x⟩

namespace Tree

/-- All scopes that the tree is annotated with have words of their own. -/
@[mk_iff] structure ScopesFit (t : Tree) : Prop where
  funcs : ∀ r ∈ t.stmts.funcs.toArray, ScopeId.Fits r.scope
  typeDecls : ∀ r ∈ t.stmts.typeDecls.toArray, ScopeId.Fits r.scope
  impls : ∀ r ∈ t.stmts.impls.toArray, ScopeId.Fits r.scope
  blocks : ∀ r ∈ t.exprs.blocks.toArray, ScopeId.Fits r.scope
  fors : ∀ r ∈ t.exprs.fors.toArray, ScopeId.Fits r.scope

instance (t : Tree) : Decidable t.ScopesFit := decidable_of_iff' _ t.scopesFit_iff

variable {t : Tree}

theorem ScopesFit.reads_stmts (h : t.ScopesFit) : Stmts.codec.Reads t.stmts t.stmts :=
  reads_record <| .plain <| .plain <| .plain <|
    .reads (Arena.reads fun _ hr => (h.funcs _ hr |> FuncRecord.reads)) <|
    .reads (Arena.reads fun _ hr => (h.typeDecls _ hr |> TypeDeclRecord.reads)) <|
    .reads (Arena.reads fun _ hr => (h.impls _ hr |> ImplRecord.reads)) <| .plain <| .plain <|
      .nil _

theorem ScopesFit.reads_exprs (h : t.ScopesFit) : Exprs.codec.Reads t.exprs t.exprs :=
  reads_record <| .plain <| .plain <| .plain <| .plain <| .plain <| .plain <| .plain <| .plain <|
    .plain <| .plain <| .plain <| .plain <|
    .reads (Arena.reads fun _ hr => (h.blocks _ hr |> BlockRecord.reads)) <| .plain <| .plain <|
    .reads (Arena.reads fun _ hr => (h.fors _ hr |> ForRecord.reads)) <| .nil _

instance : typesCodec.Faithful := faithful_record

theorem ScopesFit.reads (h : t.ScopesFit) (hnames : t.names.Reachable) : codec.Reads t t := by
  have hparts : TreeParts.codec.Reads t.parts t.parts := reads_record <|
    .plain <| .reads (reads_some h.reads_stmts encode_record_ne_nil) <|
    .reads (reads_some h.reads_exprs encode_record_ne_nil) <|
    .reads (reads_some (Faithful.reads t.types) encode_record_ne_nil) <| .plain <| .nil _
  have hsame : ofParts t.parts = t := congrArg (fun n => { t with names := n }) hnames.restore_names
  exact fun hfits => (reads_map hparts hfits).trans (congrArg some hsame)

end Tree

end Syntax

end UnitCheck
