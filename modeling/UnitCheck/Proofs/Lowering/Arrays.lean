import UnitCheck.Proofs.Lowering.Owned
import UnitCheck.Syntax.Build

/-!
# Array literals

An array literal becomes a slot of its own, which is filled element by element and then loaded
(`gives_fillArray`). Slots are brought to life by lines in the order in which they are made, so none
is twice (`Lowers.bindsNew`).
-/

namespace UnitCheck.Code

def Line.bound? : Line → Option LocalId
  | bind l _ => some l
  | _ => none

end UnitCheck.Code

namespace UnitCheck.Lowering

open Code Syntax
open Run (Gives)

variable {c : Context} {s t : State} {l : LocalId}

/-! ## Elements -/

/-- The elements of an array literal, from element `i` on, are lowered one after the other. Behind
the lines that it needs, each of them has a line that stores it. -/
inductive Stores (c : Context) (t : State) (l : LocalId) :
    Nat → List Expr → State → State → List LineId → Prop
  | nil {i s} : Stores c t l i [] s s []
  | cons {i e es s s1 s2 s' L L' v w k} : (useExpr c e).value s = .ok v s1 → Ran s s1 L →
      t.module.value? w = some (.literal .uint (Text.ofNat i)) →
      t.module.line? k = some (.assign (.index (.slot l) w) v) → t.isMade k = true → Ran s1 s2 [k] →
      Stores c t l (i + 1) es s2 s' L' → Stores c t l i (e :: es) s s' (L ++ k :: L')

theorem gives_fillArray (l : LocalId) (i : Nat) {es : List Expr}
    (hcomplete : areCompleteExprs es = true) (hrecorded : RecordedExprs c.tree es) (hs : Ready s) :
    Gives (fillArray l i (useElems c es)) s fun _ s' => Ready s' ∧
      ∃ L, Ran s s' L ∧ ∀ t, Later s s' t → Stores c t l i es s s' L := by
  induction es generalizing i s with
  | nil =>
    exact .pure ⟨hs, [], .refl s, fun _ _ => .nil⟩
  | cons e es ih =>
    obtain ⟨he, hes⟩ := Bool.and_eq_true_iff.1 hcomplete
    obtain ⟨v, s1, hv, hs1, L, hran1, -⟩ :=
      (useExpr_lowers e (orComplete he) hrecorded.1).value s hs
    obtain ⟨_, s2, hstore, hs2, _, hran2, hmade⟩ :=
      builds_storeElem l i v (s1.module.valueSpan v) s1 hs1
    rw [useElems, fillArray_cons]
    refine .step hv (.step rfl (.step hstore ((ih (i + 1) hes hrecorded.2 hs2).mono ?_)))
    rintro _ s3 ⟨hs3, L', hran3, hrest⟩
    refine ⟨hs3, _, hran1.trans (hran2.trans hran3), fun t ht => ?_⟩
    have ht1 := hran1.later_right hs hs1 ht
    obtain ⟨-, rfl, hvalue, hline⟩ := hmade t (hran2.later_left hran3 hs1 ht1)
    exact .cons hv hran1 hvalue.value? hline.line? hline.2.2 hran2
      (hrest t (hran2.later_right hs1 hs2 ht1))

theorem has_synthetic_loadArray {length : UInt32} {span : Span} {v : ValueId} {s' : State}
    (h : loadArray l length span s = .ok v s') :
    (Module.marksOf s'.module.valueMarks v).has .synthetic = true := by
  cases h
  exact marksOf_mark_self _ _

/-! ## Slots -/

/-- Lines that were made between two positions bring slots to life that were made there too, in
order. -/
structure BindsNew (t : State) (p q : Pos) : Prop where
  le : p.Le q
  bound : ((linesIn t.module p.lines q.lines).filterMap Line.bound?).Sublist
    (idsIn p.locals q.locals)

namespace BindsNew

variable {p q r : Pos} {x : Line} {span : Span} {made : Bool} {v : ValueId}

theorem refl (p : Pos) : BindsNew t p p :=
  ⟨.refl p, by rw [linesIn, slice_self]; exact List.nil_sublist _⟩

theorem trans (h : BindsNew t p q) (h' : BindsNew t q r) : BindsNew t p r := by
  refine ⟨h.le.trans h'.le, ?_⟩
  rw [linesIn, ← slice_append (Nat.succ_le_succ h.le.lines) (Nat.succ_le_succ h'.le.lines),
    List.filterMap_append, ← idsIn_append h.le.locals h'.le.locals]
  exact h.bound.append h'.bound

theorem more (h : BindsNew t p q) (hle : q.Le r) (hlines : r.lines = q.lines) : BindsNew t p r := by
  refine h.trans ⟨hle, ?_⟩
  rw [hlines, linesIn, slice_self]
  exact List.nil_sublist _

theorem addValue (h : BindsNew t p q) : BindsNew t p q.addValue :=
  h.more (Pos.Le.refl q).addValue rfl

theorem addItem (h : BindsNew t p q) : BindsNew t p q.addItem := h.more (Pos.Le.refl q).addItem rfl

theorem linesIn_addLine (hline : HasLine t q x span made) :
    linesIn t.module q.lines q.addLine.lines = [x] := by
  rw [linesIn, Pos.addLine, slice_cons hline.1 le_rfl, slice_self]

theorem addLine (h : BindsNew t p q) (hline : HasLine t q x span made) (hx : x.bound? = none) :
    BindsNew t p q.addLine := by
  refine h.trans ⟨(Pos.Le.refl q).addLine, ?_⟩
  rw [linesIn_addLine hline, List.filterMap_cons_none hx]
  exact List.nil_sublist _

theorem bind (h : BindsNew t p q) (hline : HasLine t q (.bind q.slot v) span made) :
    BindsNew t p q.addLocal.addLine := by
  refine h.trans ⟨(Pos.Le.refl q).addLocal.addLine, ?_⟩
  show (List.filterMap _ (linesIn t.module q.lines q.addLine.lines)).Sublist
    (idsIn q.locals (q.locals + 1))
  rw [linesIn_addLine hline, idsIn_succ le_rfl, idsIn_self]
  exact .refl _

end BindsNew

def Judgement.BindsNew (t : State) : Judgement → Prop
  | .value _ p q _ _ | .place _ p q _ _ | .placed _ p q _ _ | .body _ p q _ | .args _ p q _ _
  | .elems _ _ _ p q _ | .arms _ _ _ p q _ _ | .stmts _ p q _ _ | .stmt _ p q _ |
      .func _ _ _ _ _ _ p q
  | .methods _ _ p q => Lowering.BindsNew t p q

variable {p q : Pos} {ss : List Stmt} {L : List LineId}

theorem LowersParams.bindsNew {ds : List DeclId} {fs : List ParamForm} {xs : List Code.Param}
    (h : LowersParams c t ds fs p q xs) : BindsNew t p q := by
  induction h with
  | nil => exact .refl _
  | cons _ _ _ ih => exact ((BindsNew.refl _).more (Pos.Le.refl _).addLocal rfl).trans ih

theorem Lowers.bindsNew {j : Judgement} (h : Lowers c t j) : j.BindsNew t := by
  induction h with
  | absent | slotPlace | noBody | noArgs | noElems | noArms | noStmts | undeclared | noMethods =>
    exact .refl _
  | ident | literal => exact (BindsNew.refl _).addValue
  | unary _ _ ih | ref _ _ ih | deref _ _ ih | index _ _ ih | field _ _ ih | cast _ _ _ ih
  | block _ _ ih => exact .addValue ih
  | binary _ _ _ ih ih' | call _ _ _ ih ih' | whileLoop _ _ _ ih ih' =>
    exact (BindsNew.trans ih ih').addValue
  | array _ _ _ _ hline _ _ ih =>
    refine .addValue (.trans ?_ ih)
    exact ((BindsNew.refl _).bind hline).addValue
  | ifElse _ _ _ _ ih ih' ih'' => exact (BindsNew.trans (.trans ih ih') ih'').addValue
  | forLoop _ _ _ _ _ ih ih' =>
    exact (BindsNew.trans (.more ih (Pos.Le.refl _).addLocal rfl) ih').addValue
  | derefPlace _ ih | fieldPlace _ ih | placed _ ih | closedArm _ _ ih | tailStmt _ ih | func _ ih
  | impl _ ih | skipMethod _ _ _ ih => exact ih
  | indexPlace _ _ ih ih' | consArgs _ _ ih ih' | plainArm _ _ ih ih' | consStmts _ _ _ ih ih'
  | consMethods _ _ ih ih' => exact .trans ih ih'
  | spilled _ _ _ hline ih | var _ _ _ hline ih => exact .bind ih hline
  | blockBody _ _ ih | valueBody _ _ _ _ ih =>
    exact ((BindsNew.refl _).more (Pos.Le.refl _).addBlock rfl).trans ih
  | consElems _ _ hline _ ih ih' =>
    refine .trans ?_ ih'
    exact (BindsNew.addLine ih hline rfl).addValue
  | elseIfArm _ _ _ ih ih' ih'' => exact .trans (.trans ih ih') ih''
  | assign _ _ hline ih ih' => exact (BindsNew.trans ih ih').addLine hline rfl
  | unassigned _ _ hline ih | expr _ hline ih | return_ _ hline ih | break_ _ hline ih =>
    exact .addLine ih hline rfl
  | continue_ _ hline => exact (BindsNew.refl _).addLine hline rfl
  | typeDecl _ _ _ _ _ _ _ ih => exact (BindsNew.refl _).addItem.trans ih
  | function _ hparams _ _ _ _ ih =>
    refine hparams.bindsNew.trans (.trans ?_ ih)
    split
    · exact (BindsNew.refl _).addItem
    · exact .refl _

theorem LowersProgram.bindsNew (h : LowersProgram c t ss p q L) : BindsNew t p q := by
  induction h with
  | nil => exact .refl _
  | cons htop _ ih =>
    refine .trans ?_ ih
    cases htop with
    | var hvalue _ _ hline =>
      have hbind := BindsNew.bind hvalue.bindsNew hline
      split
      · exact hbind.addItem
      · exact hbind
    | declaration _ hstmt => exact hstmt.bindsNew
    | rejected => exact .refl _

/-- No slot of a module is brought to life twice. -/
theorem LowersProgram.nodup_bound (hs : Ready s) (hran : Ran .initial s L)
    (h : LowersProgram c s ss .start s.pos L) :
    (s.module.lines.toList.filterMap Line.bound?).Nodup := by
  have hreserved : s.module.lines[0]? = some (.unknown ⟨0, .inl rfl⟩) := hran.grows.lines rfl
  rw [← slice_whole hs.dense.lines hreserved]
  refine .sublist h.bindsNew.bound ((List.nodup_range' ..).map fun a b hab => ?_)
  cases hab
  rfl

/-! ## Whole literals -/

/-- What an array literal with elements becomes that is lowered from `s` on: behind `s1` the
elements, and behind `s2` the value `v`. The lines `k :: L` were appended to what was being
filled. -/
structure FillsArray (c : Context) (t : State) (elems : List Expr) (s s1 s2 s' : State)
    (l : LocalId) (k : LineId) (L : List LineId) (v : ValueId) : Prop where
  slot : ∃ x, t.module.local? l = some x ∧ x.decl = 0
  alloc : ∃ w elem, t.module.line? k = some (.bind l w) ∧ t.isMade k = true ∧
    t.module.value? w = some (.stackArray elem (UInt32.ofNat elems.length))
  opened : Ran s s1 [k]
  stores : Stores c t l 0 elems s1 s2 L
  filled : Ran s1 s2 L
  loads : t.module.value? v = some (.load (.slot l))
  closed : Ran s2 s' []

theorem gives_array {n : ExprNode} {elems : List Expr} {elemType : TypeExpr} {depth : Nat}
    {i : ExprId} (he : c.tree.exprAt depth i = .array n elems elemType)
    (hcomplete : isCompleteExpr (.array n elems elemType) = true) (hs : Ready s) :
    Gives (useExpr c (.array n elems elemType)).value s fun v s' => Ready s' ∧
      (Module.marksOf s'.module.valueMarks v).has .synthetic = true ∧
      ∃ s1 s2 l k L, s.module.local? l = none ∧ Ran s s' (k :: L) ∧
        ∀ t, Later s s' t → FillsArray c t elems s s1 s2 s' l k L v := by
  obtain ⟨hrecorded, -⟩ : RecordedExpr c.tree (.array n elems elemType) :=
    he ▸ (recorded_at c.tree depth).1 i
  simp only [isCompleteExpr, Bool.and_eq_true_iff, decide_eq_true_iff] at hcomplete
  obtain ⟨⟨helems, htype⟩, hlt⟩ := hcomplete
  obtain ⟨l, s1, hopen, hs1, _, hran1, hl⟩ :=
    builds_openArray (.ofNat elems.length) htype s hs
  obtain ⟨_, s2, hfill, hs2, L, hran2, hstores⟩ := gives_fillArray l 0 helems hrecorded hs1
  obtain ⟨v, s', hload, hs', _, hran3, hv⟩ := builds_loadArray l (.ofNat elems.length) n.span s2 hs2
  obtain ⟨_, _, -, -, _, -, -, -, -, rfl, rfl⟩ := hl s1 (.now _ _)
  obtain ⟨-, rfl, -⟩ := hv s' (.now _ _)
  have hran := hran2.trans hran3
  rw [List.append_nil] at hran
  rw [useExpr]
  refine ⟨v, s', ?_, hs', has_synthetic_loadArray hload, s1, s2, s.pos.slot, s.pos.line, L, ?_,
    hran1.trans hran, fun t ht => ?_⟩
  · rw [lowerArray_eq _ _ _ (by rwa [length_useElems]), length_useElems]
    exact (Run.bind_eq hopen).trans ((Run.bind_eq hfill).trans hload)
  · refine (if_pos rfl).trans (Array.getElem?_eq_none ?_)
    exact Nat.le_of_eq hs.dense.locals
  · have ht1 := hran1.later_right hs hs1 ht
    obtain ⟨elem, _, -, -, _, hlocal, halloc, hline, -, -, -⟩ := hl t (hran1.later_left hran hs ht)
    obtain ⟨-, -, rfl, hvalue⟩ := hv t (hran2.later_right hs1 hs2 ht1)
    exact {
      slot := ⟨_, hlocal.local?, rfl⟩
      alloc := ⟨_, elem, hline.line?, hline.2.2, halloc.value?⟩
      opened := hran1
      stores := hstores t (hran2.later_left hran3 hs1 ht1)
      filled := hran2
      loads := HasValue.value? hvalue
      closed := hran3 }

/-- **Array literals are filled slot by slot.** A complete unit is lowered, and no slot of the
module is brought to life twice. Let an array literal of the unit be complete, with any elements,
and lower it in any state that lowering can be in. Then a new slot without declaration is bound to
an array of as many elements; one after the other, each element is lowered and stored at its index
behind the lines that this needs; and the value is a load of the slot. Exactly these lines, the
first of which binds the slot, are appended to what is being filled, and this goes on being filled.
All of this was made up by lowering, but for the elements. -/
theorem arrays_are_filled (tree : Tree) (decls : Decls)
    (hcomplete : areCompleteStmts tree.program = true) :
    ∃ out, lower tree decls = .ok out ∧ (out.module.lines.toList.filterMap Line.bound?).Nodup ∧
      ∀ depth i n elems elemType s, tree.exprAt depth i = .array n elems elemType →
        isCompleteExpr (.array n elems elemType) = true → Ready s →
        ∃ v s', (useExpr ⟨tree, decls⟩ (.array n elems elemType)).value s = .ok v s' ∧ Ready s' ∧
          (Module.marksOf s'.module.valueMarks v).has .synthetic = true ∧
          ∃ s₁ s₂ l k L, s.module.local? l = none ∧ Ran s s' (k :: L) ∧
            ∀ t, Later s s' t → FillsArray ⟨tree, decls⟩ t elems s s₁ s₂ s' l k L v := by
  obtain ⟨s, hlower, -, hs, hran, hrules⟩ := @lower_follows tree decls hcomplete
  exact ⟨_, hlower, hrules.nodup_bound hs hran, fun depth i n elems elemType s he helems hs =>
    gives_array (c := ⟨tree, decls⟩) he helems hs⟩

/-- `let g = [[1], 1]`. -/
def nesting : Tree :=
  let build : Build Unit := do
    let one ← Build.literal .zero .int 1
    let inner ← Build.array .zero 0 [one]
    let outer ← Build.array .zero 0 [inner, one]
    Build.pushRoot (← Build.var .zero .zero 2 0 outer .default)
  (build .empty).2

/-- The outer literal is filled with the inner one and a number. -/
theorem arrays_are_filled_nesting :
    let one := .literal ⟨1, .zero, 1⟩ .int 1
    ∃ out v s s₁ s₂ l k L, lower nesting .empty = .ok out ∧
      (out.module.lines.toList.filterMap Line.bound?).Nodup ∧
      (useExpr ⟨nesting, .empty⟩ (nesting.exprAt 3 3)).value .initial = .ok v s ∧
        Ran .initial s (k :: L) ∧
      FillsArray ⟨nesting, .empty⟩ s [.array ⟨2, .zero, 1⟩ [one] (.absent 0), one] .initial s₁ s₂ s
        l k L v := by
  intro one
  obtain ⟨out, hout, hnodup, harrays⟩ := arrays_are_filled nesting .empty (by decide +kernel)
  obtain ⟨v, s, hrun, -, -, s₁, s₂, l, k, L, -, hran, hfills⟩ := harrays 3 3 ⟨3, .zero, 2⟩
    [.array ⟨2, .zero, 1⟩ [one] (.absent 0), one] (.absent 0) .initial rfl (by decide +kernel)
      ready_initial
  exact ⟨out, v, s, s₁, s₂, l, k, L, hout, hnodup, hrun, hran, hfills s (.now _ _)⟩

end UnitCheck.Lowering
