import UnitCheck.Proofs.Lowering.Rules

/-!
# Pieces of lowering

Each piece that lowering is put together from follows the rules, if the parts of the construct do:
uses of expressions, names, declarations, statements, array literals and loops.
-/

namespace UnitCheck.Lowering

open Code List Syntax
open Run (Gives)

variable {c : Context} {value : Lower ValueId} {values : List (Lower ValueId)} {n : StmtNode}
  {ds : List DeclId}

/-! ## Reading -/

variable {α : Type} {s : State} {fs : List ParamForm} {body e : Expr}
  {lower? : Option (Lower BlockId)} {name : NameId} {nameSpan : Span} {methods : List Stmt}
  {lower : DeclId → Lower (List DeclId)} {elemType : TypeExpr}

theorem Builds.need_bind {β : Type} {o : Option α} {r : α} {f : α → Lower β} {R : Makes β}
    (h : o = some r) (hf : Builds (f r) R) : Builds (Run.need o >>= f) R := by
  subst h
  exact fun s hs => .step rfl (hf s hs)

theorem Builds.ite {P : Prop} [Decidable P] {a b : Lower α} {R : Makes α}
    (ha : P → Builds a R) (hb : ¬ P → Builds b R) : Builds (if P then a else b) R := by
  split
  next h => exact ha h
  next h => exact hb h

/-- Where a slot comes from that is found: from a scope, or from the declaration. -/
theorem slotOf_cases (s : State) (name : NameId) (d : DeclId) :
    (∃ r ∈ s.slots, (name, s.slotOf name d) ∈ r ∧ ∃ x,
        s.module.locals[(s.slotOf name d).index]? = some x ∧ x.decl = d) ∨
      (d, s.slotOf name d) ∈ s.declSlots ∨ s.slotOf name d = 0 ∧ d ∉ s.declSlots.map Prod.fst := by
  unfold State.slotOf
  dsimp only
  split
  next l hfound =>
    obtain ⟨r, hr, hfound⟩ := exists_of_findSome?_eq_some hfound
    obtain ⟨l', hl', hfound⟩ := Option.bind_eq_some_iff.1 hfound
    obtain ⟨before, behind, heq, -⟩ := lookup_eq_some_iff.1 hl'
    split at hfound
    next hdecl =>
      cases hfound
      obtain ⟨x, hx, hd⟩ := (Option.any_eq_true ..).1 hdecl
      exact .inl ⟨r, hr, heq ▸ mem_append_right _ mem_cons_self, x, hx, by simpa using hd⟩
    next => cases hfound
  next =>
    cases hlook : s.declSlots.lookup d with
    | none =>
      refine .inr (.inr ⟨rfl, fun hd => ?_⟩)
      obtain ⟨x, hx, rfl⟩ := mem_map.1 hd
      exact absurd (lookup_eq_none_iff.1 hlook x hx) (by simp)
    | some l =>
      obtain ⟨before, behind, heq, -⟩ := lookup_eq_some_iff.1 hlook
      exact .inr (.inl (heq ▸ mem_append_right _ mem_cons_self))

/-- A slot that is found belongs to the declaration that was looked for. -/
theorem hasSlot_slotOf (hs : Ready s) (name : NameId) (d : DeclId)
    (h : (s.slotOf name d).isValid = true) : s.HasSlot (s.slotOf name d) d := by
  obtain ⟨_, _, _, hx⟩ | hd | ⟨hzero, -⟩ := slotOf_cases s name d
  · exact ⟨h, hx⟩
  · exact hs.declSlots _ hd
  · rw [hzero] at h
    cases h

theorem builds_lowerType {x : TypeExpr} (h : (x.isMissing || x.isComplete) = true) :
    Builds (lowerType c x) fun t p q L i => q = p ∧ L = [] ∧ Spells c t.module.types x i := by
  intro s hs
  refine (gives_lowerType x hs h).mono fun i s' ⟨hretypes, hi⟩ => ?_
  exact hretypes.after hs (P := fun T i => Spells c T x i) hi fun T wf ht h => h.mono ht wf

theorem view_kept {T T' : TypeTable} {i : TypeId} {x : View} (hx : x ≠ .missing)
    (wf : T.WellFormed) (ht : T.Extends T') (h : T.view i = x) : T'.view i = x :=
  (ht.view_eq_of_ne wf (by rw [h]; exact hx)).trans h

/-! ## Uses -/

abbrev LowersAs (c : Context) (value : Lower ValueId) (e : Expr) : Prop :=
  Builds value fun t p q L v => LowersValue c t e p q L v

/-- The ways to use an expression follow the rules. -/
structure Use.Lowers (c : Context) (u : Use) (e : Expr) : Prop where
  value : LowersAs c u.value e
  place : Builds u.place fun t p q L o =>
    (∃ place, o = some place ∧ LowersPlace c t e p q L place) ∨
      (o = Option.none ∧ q = p ∧ L = [] ∧ e.isProjection = false)
  block : Builds u.block fun t p q L b => L = [] ∧ LowersBlock c t e p q b

namespace Use

variable {u : Use} {e : Expr} {span : Span}

section

variable {place : Lower Place} (habsent : ∀ i, e ≠ .absent i)
    (hblock : ∀ n stmts, e ≠ .block n stmts)
include habsent hblock

theorem builds_bodyOf (h : LowersAs c value e) :
    Builds (bodyOf span value) fun t p q L b => L = [] ∧ LowersBlock c t e p q b := by
  refine (builds_inBlock fun b => fills_setTail h).mono ?_
  rintro t p q L b ⟨rfl, rfl, lines, tail, hhas, hvalue⟩
  exact ⟨rfl, .valueBody habsent hblock hhas hvalue⟩

theorem Lowers.ofValue (hproj : e.isProjection = false)
    (h : LowersAs c value e) : (Use.ofValue span value).Lowers c e where
  value := h
  place := .pure_of fun _ _ => .inr ⟨rfl, rfl, rfl, hproj⟩
  block := builds_bodyOf habsent hblock h

theorem Lowers.ofPlace (h : Builds place fun t p q L x => LowersPlace c t e p q L x)
    (hload : ∀ {t p q L x}, LowersPlace c t e p q L x → HasValue t q (.load x) span →
      LowersValue c t e p q.addValue L q.value) : (Use.ofPlace span place).Lowers c e := by
  have hvalue : LowersAs c (do newValue (.load (← place)) span) e := by
    refine (h.bind fun x => builds_newValue (.load x) span).mono ?_
    rintro t p q L v ⟨x, _, _, _, hx, ⟨rfl, rfl, rfl, hv⟩, rfl⟩
    rw [append_nil]
    exact hload hx hv
  refine ⟨hvalue, ?_, builds_bodyOf habsent hblock hvalue⟩
  intro s hs
  obtain ⟨x, s', hrun, hs', L, hran, hx⟩ := h s hs
  refine ⟨some x, s', ?_, hs', L, hran, fun t ht => .inl ⟨x, rfl, hx t ht⟩⟩
  show EStateM.map some place s = _
  rw [EStateM.map, hrun]

end

theorem Lowers.placed (h : u.Lowers c e) :
    Builds u.placed fun t p q L x => LowersPlaced c t e p q L x := by
  refine (h.place.bind (S := fun o => o.elim
    (.andThen (fun t p q L v => LowersValue c t e p q L v) fun v t p q L y =>
      ∃ name span, q = p.addLocal.addLine ∧ L = [p.line] ∧ y = .slot p.slot ∧
        HasLocal t p ⟨name, 0, 0, .mutable⟩ span ∧ HasLine t p (.bind p.slot v) span true)
    fun x _ p q L y => q = p ∧ L = [] ∧ y = x) fun o => ?_).mono ?_
  · cases o with
    | some x => exact .pure x
    | none =>
      refine h.value.bind fun v => .get_bind fun s hs => ?_
      refine (((builds_newTemp "tmp" 0 (s.module.valueSpan v)).bind fun l =>
        (builds_emitSynthetic (.bind l v) (s.module.valueSpan v)).bind fun _ =>
          .pure (Place.slot l)) s hs).mono fun y s' hy => hy.mono ?_
      rintro t p q L y ⟨_, _, _, _, ⟨rfl, rfl, rfl, name, hlocal⟩,
        ⟨_, _, _, _, ⟨rfl, rfl, hline⟩, ⟨rfl, rfl, rfl⟩, rfl⟩, rfl⟩
      exact ⟨name, _, rfl, rfl, rfl, hlocal, hline⟩
  · rintro t p q L y ⟨o, _, _, _, ⟨x, rfl, hx⟩ | ⟨rfl, rfl, rfl, hproj⟩, hy, rfl⟩
    · obtain ⟨rfl, rfl, rfl⟩ := hy
      rw [append_nil]
      exact .placed hx
    · obtain ⟨v, _, _, _, hv, ⟨name, span, rfl, rfl, rfl, hlocal, hline⟩, rfl⟩ := hy
      exact .spilled hproj hv hlocal hline

end Use

/-! ### Names -/

def slotValue (c : Context) (n : ExprNode) (name : NameId) : Lower ValueId := do
  let l := (← get).slotOf name (identDecl c n)
  if l.isValid then newValue (.load (.slot l)) n.span
  else
    report (.internal n.span ("no local slot for '" ++ c.name name ++ "'"))
    newValue .poison n.span

def slotPlace (c : Context) (n : ExprNode) (name : NameId) : Lower (Option Place) := do
  let l := (← get).slotOf name (identDecl c n)
  return if l.isValid then some (.slot l) else none

section Names

variable {n : ExprNode} {name : NameId} {d : Decl}

/-- A name that cannot be used here is reported. -/
theorem builds_poison (f : Fault)
    (h : ∀ t : State, f ∈ t.faults.toList → Names c t n name .poison) :
    LowersAs c (do report f; newValue .poison n.span) (.ident n name) := by
  refine ((builds_report f).bind fun _ => builds_newValue .poison n.span).mono ?_
  rintro t p q L v ⟨_, _, _, _, ⟨rfl, rfl, hf⟩, ⟨rfl, rfl, rfl, hv⟩, rfl⟩
  exact .ident (h t hf) hv

section

variable (hd : c.decls.get? (identDecl c n) = some d)
include hd

theorem builds_slotValue (hkind : d.kind = .var ∨ d.kind = .param) :
    LowersAs c (slotValue c n name) (.ident n name) := by
  refine .get_bind fun s hs => ?_
  dsimp only
  split
  next hvalid =>
    have hhas := hasSlot_slotOf hs name _ hvalid
    refine (builds_newValue _ n.span s hs).mono fun v s' hv => hv.with_grows.mono ?_
    rintro t p q L v ⟨hgrows, rfl, rfl, rfl, hv⟩
    exact .ident (.slot hd hkind (hhas.mono hgrows)) hv
  next => exact builds_poison _ (fun _ => .lost hd hkind) s hs

theorem slot_lowers
    (hkind : d.kind = .var ∨ d.kind = .param) :
    Use.Lowers c ⟨slotValue c n name, slotPlace c n name, Use.bodyOf n.span (slotValue c n name)⟩
      (.ident n name) where
  value := builds_slotValue hd hkind
  place := .get_bind fun s hs => .pure ⟨hs, [], .refl s, fun t ht => by
    split
    next hvalid =>
      have hhas := hasSlot_slotOf hs name _ hvalid
      exact .inl ⟨_, rfl, .slotPlace (.slot hd hkind (hhas.mono ht.grows))⟩
    next => exact .inr ⟨rfl, rfl, rfl, rfl⟩⟩
  block := Use.builds_bodyOf nofun nofun (builds_slotValue hd hkind)

end

end Names

theorem useIdent_lowers (n : ExprNode) (name : NameId) :
    (useIdent c n name).Lowers c (.ident n name) := by
  unfold useIdent
  rw [show ((c.tree.exprs.idents.get? n.record.index).map IdentRecord.decl).getD 0 =
    identDecl c n from rfl]
  dsimp only
  cases hd : c.decls.get? (identDecl c n) with
  | none =>
    refine .ofValue nofun nofun rfl ((builds_newValue .poison n.span).mono ?_)
    rintro t p q L v ⟨rfl, rfl, rfl, hv⟩
    exact .ident (.unknown hd) hv
  | some d =>
    dsimp only
    split
    next hkind => exact slot_lowers hd (.inl hkind)
    next hkind => exact slot_lowers hd (.inr hkind)
    next hkind =>
      refine .ofValue nofun nofun rfl ((builds_newValue _ n.span).mono ?_)
      rintro t p q L v ⟨rfl, rfl, rfl, hv⟩
      exact .ident (.func hd hkind) hv
    next hvar hparam hfunc =>
      exact .ofValue nofun nofun rfl (builds_poison _ fun _ => .unfit hd hvar hparam hfunc)

/-! ## Declarations -/

theorem builds_lowerParams (h : fs.all (fun f => f.type.isComplete) = true) :
    Builds (lowerParams c ds fs) fun t p q L xs => L = [] ∧ LowersParams c t ds fs p q xs := by
  induction fs generalizing ds with
  | nil => exact .pure_of fun _ _ => ⟨rfl, .nil⟩
  | cons f fs ih =>
    rw [all_cons, Bool.and_eq_true] at h
    obtain ⟨htype, hrest⟩ := h
    refine ((builds_lowerType (by rw [htype, Bool.or_true])).bind fun type =>
      builds_declare f.name fun l => (ih hrest).thenPure _).mono ?_
    rintro t p q L _ ⟨type, _, _, _, ⟨rfl, rfl, hspells⟩, ⟨hlocal, xs, ⟨rfl, hxs⟩, rfl⟩, rfl⟩
    exact ⟨rfl, .cons hspells hlocal hxs⟩

theorem builds_lowerMembers {fs : List MemberForm}
    (h : fs.all (fun f => f.type.isMissing || f.type.isComplete) = true) :
    Builds (lowerMembers c ds fs) fun t p q L xs => q = p ∧ L = [] ∧
      LowersMembers c t ds fs xs := by
  induction fs generalizing ds with
  | nil => exact .pure_of fun _ _ => ⟨rfl, rfl, .nil⟩
  | cons f fs ih =>
    rw [all_cons, Bool.and_eq_true] at h
    obtain ⟨htype, hrest⟩ := h
    refine ((builds_lowerType htype).bind fun type => (ih hrest).thenPure _).mono ?_
    rintro t p q L _ ⟨type, _, _, _, ⟨rfl, rfl, hspells⟩, ⟨xs, ⟨rfl, rfl, hxs⟩, rfl⟩, rfl⟩
    exact ⟨rfl, rfl, .cons hspells hxs⟩

theorem LowersParams.lt_size (hs : Ready s)
    {p q : Pos} {xs : List Code.Param} (h : LowersParams c s ds fs p q xs) :
    ∀ i ∈ xs.map Code.Param.type, i.index < s.module.types.size := by
  induction h with
  | nil => nofun
  | cons hspells _ _ ih =>
    intro i hi
    obtain rfl | hi := mem_cons.1 hi
    · exact hspells.lt_size hs.types
    · exact ih i hi

/-- The body of a function, if it has one. -/
def LowersBody (c : Context) (body : Expr) (lower? : Option (Lower BlockId)) : Prop :=
  match lower? with
  | none => ∃ i, body = .absent i
  | some lower => Builds lower fun t p q L b => L = [] ∧ LowersBlock c t body p q b

/-- The item of a function, its body, and the names of slots as they were before. -/
theorem builds_funcItem
    (hbody : LowersBody c body lower?) (d : DeclId) (name : Text) (span : Span) (f : Func)
    (hf : f.body = 0) (saved : List (List (NameId × LocalId))) :
    Builds (do
      let item? ← if d.isValid then
          some <$> onModule (·.addItem ⟨.func, d, name, span, some f, none, none⟩)
        else pure none
      if let some lower := lower? then
        let b ← lower
        if let some at_ := item? then
          modifyModule (·.modifyItem at_ fun i => { i with func := some { f with body := b } })
      modify fun s => { s with slots := saved }
      return d) fun t p q L _ => L = [] ∧ ∃ b,
        (d.isValid = true →
          HasItem t p (d, ⟨.func, d, name, span, some { f with body := b }, none, none⟩)) ∧
        LowersBlock c t body (if d.isValid then p.addItem else p) q b := by
  intro s hs
  have hinitial : { f with body := 0 } = f := by rw [← hf]
  by_cases hvalid : d.isValid = true
  · simp only [hvalid, true_imp_iff]
    cases lower? with
    | none =>
      obtain ⟨i, rfl⟩ := hbody
      have hafter : After (fun t p q L _ => L = [] ∧
          HasItem t p (d, ⟨.func, d, name, span, some { f with body := 0 }, none, none⟩) ∧
          q = p.addItem) s () (s.withItem ⟨.func, d, name, span, some f, none, none⟩) := by
        obtain ⟨i, s', hrun, hafter⟩ := builds_addItem
          ⟨.func, d, name, span, some f, none, none⟩ s hs
        cases hrun
        refine hafter.withSlots ?_ _
        rintro t p q L ⟨rfl, rfl, -, hitem⟩
        rw [hinitial]
        exact ⟨rfl, hitem, rfl⟩
      refine .step rfl (.pure (hafter.withSlots ?_ saved))
      rintro t p q L ⟨rfl, hitem, rfl⟩
      exact ⟨rfl, 0, hitem, .noBody⟩
    | some lower =>
      refine (hbody _ (hs.withItem _)).bind fun b s1 hafter => .step rfl (.step rfl (.pure ?_))
      refine (hafter.completed _).withSlots ?_ saved
      rintro t p q L ⟨hitem, rfl, hblock⟩
      exact ⟨rfl, b, hitem, hblock⟩
  · simp only [hvalid]
    cases lower? with
    | none =>
      obtain ⟨i, rfl⟩ := hbody
      have hafter : After (fun _ p q L _ => q = p ∧ L = []) s () s :=
        ⟨hs, [], .refl s, fun _ _ => ⟨rfl, rfl⟩⟩
      refine .step rfl (.pure (hafter.withSlots ?_ saved))
      rintro t p q L ⟨rfl, rfl⟩
      exact ⟨rfl, 0, nofun, .noBody⟩
    | some lower =>
      refine (hbody s hs).bind fun b s1 hafter => .step rfl (.pure (hafter.withSlots ?_ saved))
      rintro t p q L ⟨rfl, hblock⟩
      exact ⟨rfl, b, nofun, hblock⟩

theorem builds_lowerFunc {owner : DeclId} {params : List ParamForm}
    {result : TypeExpr}
    (hrecord : (c.tree.stmts.funcs.get? n.record.index).isSome)
    (hparams : params.all (fun f => f.type.isComplete) = true)
    (hresult : (result.isMissing || result.isComplete) = true) (hbody : LowersBody c body lower?) :
    Builds (lowerFunc c n owner name params result lower?) fun t p q L _ =>
      L = [] ∧ LowersFunc c t owner n name params result body p q := by
  obtain ⟨r, hr⟩ := Option.isSome_iff_exists.1 hrecord
  refine .need_bind hr (.get_bind fun s hs => ?_)
  have hslots := builds_modify (fun s => { s with slots := [[]] }) fun _ => ⟨rfl, rfl, rfl, rfl⟩
  refine (gives_andThen hs (hslots s hs) fun _ s1 hs1 _ _ =>
    gives_andThen hs1 (builds_lowerType hresult s1 hs1) fun declared s2 hs2 _ hdeclared =>
    gives_andThen hs2 (builds_lowerParams hparams s2 hs2) fun xs s3 hs3 hgrows hxs =>
    gives_andThen hs3 (R := fun t p q L i => q = p ∧ L = [] ∧ t.module.types.view i =
      .fn (xs.map Code.Param.type) (if result.id.isValid then declared else Builtin.unit)) ?_
    fun type s4 hs4 _ _ => builds_funcItem hbody r.decl _ _ _ rfl _ s4 hs4).mono ?_
  · -- the parts of the function's type are in the table
    obtain ⟨_, _, -, -, hspells⟩ := hdeclared
    obtain ⟨_, _, -, hlowers⟩ := hxs
    refine (gives_fn hs3 fun i hi => ?_).mono fun i s' ⟨hretypes, hi⟩ =>
      hretypes.after hs3 (P := fun T i => T.view i = _) hi fun T wf ht => view_kept nofun wf ht
    obtain rfl | hi := mem_cons.1 hi
    · split
      · exact (hspells.mono hgrows.types hs2.types).lt_size hs3.types
      · exact Nat.lt_of_lt_of_le (by decide) (Nat.succ_le_of_lt
          (TypeTable.lt_size_of_lookup? (hs3.types.lookup?_builtin (k := 1) rfl)))
    · exact hlowers.lt_size hs3 i hi
  · intro d s' hd
    refine hd.mono ?_
    rintro t p q L d ⟨_, _, _, _, ⟨rfl, rfl⟩, ⟨declared, _, _, _, ⟨rfl, rfl, hspells⟩,
      ⟨xs, p1, _, _, ⟨rfl, hxs⟩, ⟨type, _, _, _, ⟨rfl, rfl, htype⟩, ⟨rfl, b, hitem, hblock⟩, rfl⟩,
        rfl⟩, rfl⟩, rfl⟩
    refine ⟨rfl, .function hr hxs ?_ htype hitem hblock⟩
    unfold SpellsResult
    split
    · exact hspells
    · rfl

/-- The functions inside of a type or an implementation, however they are lowered. -/
def LowersInside (c : Context) (lower : DeclId → Lower (List DeclId)) (methods : List Stmt) :
    Prop :=
  ∀ owner, Builds (lower owner) fun t p q L _ => L = [] ∧ LowersMethods c t owner methods p q

theorem builds_lowerTypeDecl {kind : TypeDeclKind}
    {fields variants : List MemberForm}
    (hrecord : (c.tree.stmts.typeDecls.get? n.record.index).isSome)
    (hfields : fields.all (fun f => f.type.isComplete) = true)
    (hvariants : variants.all (fun f => f.type.isMissing || f.type.isComplete) = true)
    (hmethods : LowersInside c lower methods) :
    Builds (lowerTypeDecl c n kind name fields variants lower) fun t p q L _ =>
      L = [] ∧ LowersStmt c t (.typeDecl n kind name nameSpan fields variants methods) p q [] := by
  obtain ⟨r, hr⟩ := Option.isSome_iff_exists.1 hrecord
  have hfields' : fields.all (fun f => f.type.isMissing || f.type.isComplete) = true := by
    rw [all_eq_true] at hfields ⊢
    exact fun f hf => by rw [hfields f hf, Bool.or_true]
  refine .need_bind hr ?_
  by_cases hvalid : r.decl.isValid = true
  · simp only [hvalid]
    have hnamed : Builds (onTypes (·.named r.decl (c.name name))) fun t p q L i =>
        q = p ∧ L = [] ∧ t.module.types.view i = .atom (.named r.decl) := by
      intro s hs
      obtain ⟨slot, made⟩ := hs.types.named r.decl (c.name name)
      refine (gives_onTypes hs made.wellFormed made.grows).mono ?_
      rintro i s' ⟨hretypes, rfl, htypes⟩
      refine hretypes.after hs (P := fun T i => T.view i = .atom (.named r.decl)) ?_
        fun T wf ht => view_kept nofun wf ht
      rw [htypes]
      exact TypeTable.view_of_atom made.lookup? rfl
    refine (hnamed.bind fun type => (builds_lowerMembers hfields').bind fun xs =>
      (builds_lowerMembers hvariants).bind (S := fun ys t p q L _ => L = [] ∧ ∃ ds,
        HasItem t p (r.decl, ⟨.type, r.decl, c.name name, n.span, none,
          some ⟨kind, type, xs, ys, ds⟩, none⟩) ∧
        LowersMethods c t r.decl methods p.addItem q) fun ys s hs => ?_).mono ?_
    · refine .step rfl ((hmethods r.decl _ (hs.withItem _)).bind fun ds s1 hafter =>
        ⟨(), _, rfl, ?_⟩)
      obtain ⟨hs', L, hran, hx⟩ := hafter.completed fun i =>
        { i with type := some ⟨kind, type, xs, ys, ds⟩ }
      refine ⟨hs', L, hran, fun t ht => ?_⟩
      obtain ⟨hitem, rfl, hms⟩ := hx t ht
      exact ⟨rfl, ds, hitem, hms⟩
    · rintro t p q L _ ⟨type, _, _, _, ⟨rfl, rfl, htype⟩, ⟨xs, _, _, _, ⟨rfl, rfl, hxs⟩,
        ⟨ys, _, _, _, ⟨rfl, rfl, hys⟩, ⟨rfl, ds, hitem, hms⟩, rfl⟩, rfl⟩, rfl⟩
      exact ⟨rfl, .typeDecl hr hvalid htype hxs hys hitem hms⟩
  · simp only [hvalid]
    exact .pure_of fun _ _ => ⟨rfl, .undeclared hr (by simpa using hvalid)⟩

theorem builds_addImpl (x : Impl) :
    Builds (modifyModule fun m => { m with impls := m.impls ++ [x] })
      fun _ p q L _ => q = p ∧ L = [] := by
  refine .of_quiet fun s hs => ⟨(), _, rfl, ?_, fun _ _ => ⟨rfl, rfl⟩⟩
  exact { Quiet.refl hs with
    grows := { Module.Grows.refl s.module with }
    dense := { hs.dense with } }

theorem builds_lowerImpl {trait target : TypeExpr} (htarget : target.isComplete = true)
    (hmethods : LowersInside c lower methods) :
    Builds (lowerImpl c n trait target lower) fun t p q L _ =>
      L = [] ∧ LowersStmt c t (.impl n trait target methods) p q [] := by
  refine ((builds_lowerType (by rw [htarget, Bool.or_true])).bind fun type =>
    (hmethods _).bind fun ds => builds_addImpl _).mono ?_
  rintro t p q L _ ⟨type, _, _, _, ⟨rfl, rfl, -⟩, ⟨ds, _, _, _, ⟨rfl, hms⟩, ⟨rfl, rfl⟩, rfl⟩, rfl⟩
  exact ⟨rfl, .impl hms⟩

/-! ## Pieces of statements and expressions -/

theorem builds_lowerVar {type : TypeExpr} {modifier : Modifier}
    (htype : (type.isMissing || type.isComplete) = true) (h : LowersAs c value e) :
    Builds (lowerVar c n name nameSpan type value modifier) fun t p q L x =>
      ∃ p1 L1 v i, LowersValue c t e p p1 L1 v ∧ Spells c t.module.types type i ∧
        HasLocal t p1 ⟨c.name name, varDecl c n, i, modifier⟩ nameSpan ∧
        HasLine t p1 (.bind p1.slot v) n.span false ∧ q = p1.addLocal.addLine ∧
        L = L1 ++ [p1.line] ∧ x = (p1.slot, p1.line, varDecl c n) := by
  refine (h.bind fun v => (builds_lowerType htype).bind fun i =>
    builds_declare name fun l =>
      (builds_emit (.bind l v) n.span).thenPure (l, ·, varDecl c n)).mono ?_
  rintro t p q L _ ⟨v, _, L1, _, hv,
    ⟨i, _, _, _, ⟨rfl, rfl, hi⟩, ⟨hlocal, _, ⟨rfl, rfl, rfl, hline⟩, rfl⟩, rfl⟩, rfl⟩
  exact ⟨_, L1, v, i, hv, hi, hlocal, hline, rfl, rfl, rfl⟩

theorem builds_valueLine (h : LowersAs c value e) (line : ValueId → Line) {span : Span}
    {R : Makes Unit}
    (hR : ∀ {t p q L v}, LowersValue c t e p q L v → HasLine t q (line v) span false →
      R t p q.addLine (L ++ [q.line]) ()) :
    Builds (do let v ← value; discard (emit (line v) span)) R := by
  refine (h.bind fun v => (builds_emit (line v) span).discard).mono ?_
  rintro t p q L _ ⟨v, p1, L1, _, hv, ⟨_, rfl, rfl, -, hline⟩, rfl⟩
  exact hR hv hline

theorem builds_lowerAssign {target : Expr} {u : Use}
    (hnode : target.node?.isSome) (hu : u.Lowers c target) (h : LowersAs c value e) :
    Builds (lowerAssign c n target u value) fun t p q L _ =>
      LowersStmt c t (.assign n target e) p q L := by
  refine .ite (fun hunresolved => ?_) fun _ => ?_
  · split at hunresolved
    · exact builds_valueLine h .eval
        (.unassigned (.unresolved (by simpa [identDecl] using hunresolved)))
    · cases hunresolved
  · obtain ⟨node, hnode⟩ := Option.isSome_iff_exists.1 hnode
    refine (hu.place.bind (S := fun o t p q L _ => o.elim
      (.error .invalidContext node.span "left side of assignment is not assignable" ∈
        t.faults.toList ∧
        ∃ p1 L1 v, LowersValue c t e p p1 L1 v ∧ HasLine t p1 (.eval v) n.span false ∧
          q = p1.addLine ∧ L = L1 ++ [p1.line])
      fun place => ∃ p1 L1 v, LowersValue c t e p p1 L1 v ∧
        HasLine t p1 (.assign place v) n.span false ∧ q = p1.addLine ∧ L = L1 ++ [p1.line])
      fun o => ?_).mono ?_
    · cases o with
      | some place =>
        exact builds_valueLine h (.assign place) fun hv hline => ⟨_, _, _, hv, hline, rfl, rfl⟩
      | none =>
        have heval := builds_valueLine h .eval (R := fun t p q L _ => ∃ p1 L1 v,
          LowersValue c t e p p1 L1 v ∧ HasLine t p1 (.eval v) n.span false ∧ q = p1.addLine ∧
          L = L1 ++ [p1.line]) fun hv hline => ⟨_, _, _, hv, hline, rfl, rfl⟩
        refine .need_bind hnode (((builds_report _).bind fun _ => heval).mono ?_)
        rintro t p q L _ ⟨_, _, _, _, ⟨rfl, rfl, hf⟩, hline, rfl⟩
        exact ⟨hf, hline⟩
    · rintro t p q L _ ⟨o, p1, L1, _, ⟨place, rfl, hplace⟩ | ⟨rfl, rfl, rfl, hproj⟩, hrest, rfl⟩
      · obtain ⟨p2, L2, v, hv, hline, rfl, rfl⟩ := hrest
        rw [← append_assoc]
        exact .assign hplace hv hline
      · obtain ⟨hf, p2, L2, v, hv, hline, rfl, rfl⟩ := hrest
        exact .unassigned (.unfit hproj hnode hf) hv hline

theorem builds_lowerFor {n : ExprNode} {binding : NameId} {bindingSpan : Span} {iter : Expr}
    {block : Lower BlockId} (h : LowersAs c value iter)
    (hbody : Builds block fun t p q L b => L = [] ∧ LowersBlock c t body p q b) :
    LowersAs c (lowerFor c n binding bindingSpan value block)
      (.forLoop n binding bindingSpan iter body) := by
  have hopen := builds_modify (fun s => { s with slots := [] :: s.slots }) fun _ =>
    ⟨rfl, rfl, rfl, rfl⟩
  have hclose := builds_modify (fun s => { s with slots := s.slots.drop 1 }) fun _ =>
    ⟨rfl, rfl, rfl, rfl⟩
  refine ((builds_report _).bind fun _ => h.bind fun i => (hopen.skip fun _ =>
    (builds_declare binding fun l => hbody.thenPure (l, ·)).bind fun x => hclose.skip fun _ =>
      .pure x).bind
    fun x => (builds_newValue (.forLoop x.1 i x.2) n.span).bind fun out =>
      (builds_markValue out .unstable).skip fun _ => .pure out).mono ?_
  rintro t p q L v ⟨_, _, _, _, ⟨rfl, rfl, hf⟩, ⟨i, p1, L1, _, hi, ⟨x, _, _, _, ⟨_, _, _, _,
    ⟨hlocal, b, ⟨rfl, hb⟩, rfl⟩, ⟨rfl, rfl, rfl⟩, rfl⟩, ⟨out, _, _, _, ⟨rfl, rfl, rfl, hv⟩,
    ⟨rfl, rfl, rfl⟩, rfl⟩, rfl⟩, rfl⟩, rfl⟩
  simp only [append_nil]
  exact .forLoop hf hi hlocal hb hv

/-! ### Array literals -/

/-- Stores a value as an element of an array literal. -/
def storeElem (l : LocalId) (i : Nat) (v : ValueId) (span : Span) : Lower Unit := do
  let index ← newValue (.literal .uint (Text.ofNat i)) span
  markValue index .synthetic
  emitSynthetic (.assign (.index (.slot l) index) v) span

theorem fillArray_cons (l : LocalId) (i : Nat) : fillArray l i (value :: values) = (do
    let v ← value
    let s ← get
    storeElem l i v (s.module.valueSpan v)
    fillArray l (i + 1) values) := by
  simp only [fillArray, storeElem, bind_assoc]

theorem builds_storeElem (l : LocalId) (i : Nat) (v : ValueId) (span : Span) :
    Builds (storeElem l i v span) fun t p q L _ => q = p.addValue.addLine ∧ L = [p.line] ∧
      HasValue t p (.literal .uint (Text.ofNat i)) span ∧
      HasLine t p (.assign (.index (.slot l) p.value) v) span true := by
  refine ((builds_newValue _ span).bind fun index => (builds_markValue index .synthetic).skip
    fun _ => builds_emitSynthetic (.assign (.index (.slot l) index) v) span).mono ?_
  rintro t p q L _ ⟨_, _, _, _, ⟨rfl, rfl, rfl, hvalue⟩, ⟨rfl, rfl, hline⟩, rfl⟩
  exact ⟨rfl, rfl, hvalue, hline⟩

theorem builds_fillArray_cons {l : LocalId} {i : Nat} {es : List Expr} (h : LowersAs c value e)
    (hrest : Builds (fillArray l (i + 1) values) fun t p q L _ =>
      LowersElems c t l (i + 1) es p q L) :
    Builds (fillArray l i (value :: values)) fun t p q L _ =>
      LowersElems c t l i (e :: es) p q L := by
  rw [fillArray_cons]
  refine (h.bind (S := fun v t p q L _ => ∃ span L',
    HasValue t p (.literal .uint (.ofNat i)) span ∧
    HasLine t p (.assign (.index (.slot l) p.value) v) span true ∧
    LowersElems c t l (i + 1) es p.addValue.addLine q L' ∧ L = p.line :: L')
    fun v => .get_bind fun s hs => ?_).mono ?_
  · refine (((builds_storeElem l i v _).bind fun _ => hrest) s hs).mono fun x s' hx => hx.mono ?_
    rintro t p q L _ ⟨_, _, _, _, ⟨rfl, rfl, hvalue, hline⟩, helems, rfl⟩
    exact ⟨_, _, hvalue, hline, helems, rfl⟩
  · rintro t p q L _ ⟨v, p1, L1, _, hv, ⟨span, L', hvalue, hline, helems, rfl⟩, rfl⟩
    exact .consElems hv hvalue hline helems

/-- The slot of an array literal, before it has elements. -/
def openArray (c : Context) (n : ExprNode) (elemType : TypeExpr) (length : UInt32) :
    Lower LocalId := do
  let elem ← lowerType c elemType
  let type ← if elem.isValid then onTypes (·.intern (Shape.array .stack elem length)) else pure 0
  let l ← newTemp "array" type n.span
  let alloc ← newValue (.stackArray elem length) n.span
  markValue alloc .synthetic
  emitSynthetic (.bind l alloc) n.span
  return l

def loadArray (l : LocalId) (length : UInt32) (span : Span) : Lower ValueId := do
  modify fun s => { s with arrays := s.arrays.push (l, length) }
  let out ← newValue (.load (.slot l)) span
  markValue out .synthetic
  return out

theorem lowerArray_eq (c : Context) (n : ExprNode) (elemType : TypeExpr)
    (hlength : values.length < UInt32.size) : lowerArray c n elemType values = (do
      let l ← openArray c n elemType (UInt32.ofNat values.length)
      fillArray l 0 values
      loadArray l (UInt32.ofNat values.length) n.span) := by
  rw [lowerArray, if_pos hlength]
  simp only [openArray, loadArray, bind_assoc]
  refine bind_congr fun elem => ?_
  split <;> simp only [bind_assoc, pure_bind]

/-- The next slot is bound to a new array. -/
def OpensSlot (n : ExprNode) (length : UInt32) (elem type : TypeId) : Makes LocalId :=
  fun t p q L l => ∃ name, HasLocal t p ⟨name, 0, type, .mutable⟩ n.span ∧
    HasValue t p (.stackArray elem length) n.span ∧ HasLine t p (.bind p.slot p.value) n.span true ∧
    q = p.addLocal.addValue.addLine ∧ L = [p.line] ∧ l = p.slot

def IsArrayType (length : UInt32) (elem type : TypeId) (t : State) : Prop :=
  if elem.isValid then t.module.types.view type = .wrap (.stack length) elem else type = 0

theorem builds_openArray {n : ExprNode} (length : UInt32)
    (htype : (elemType.isMissing || elemType.isComplete) = true) :
    Builds (openArray c n elemType length) fun t p q L l => ∃ elem type,
      Spells c t.module.types elemType elem ∧ IsArrayType length elem type t ∧
      OpensSlot n length elem type t p q L l := by
  have hslot (elem type : TypeId) : Builds (do
      let l ← newTemp "array" type n.span
      let alloc ← newValue (.stackArray elem length) n.span
      markValue alloc .synthetic
      emitSynthetic (.bind l alloc) n.span
      return l) (OpensSlot n length elem type) := by
    refine ((builds_newTemp _ type n.span).bind fun l =>
      (builds_newValue _ n.span).bind fun alloc => (builds_markValue alloc .synthetic).skip fun _ =>
      (builds_emitSynthetic (.bind l alloc) n.span).bind fun _ => .pure l).mono ?_
    rintro t p q L v ⟨l, _, _, _, ⟨rfl, rfl, rfl, name, hlocal⟩, ⟨_, _, _, _,
      ⟨rfl, rfl, rfl, halloc⟩, ⟨_, _, _, _, ⟨rfl, rfl, hline⟩, ⟨rfl, rfl, rfl⟩, rfl⟩, rfl⟩, rfl⟩
    exact ⟨name, hlocal, halloc, hline, rfl, rfl, rfl⟩
  refine ((builds_lowerType htype).bind_of (S := fun elem t p q L l => ∃ type,
    IsArrayType length elem type t ∧ OpensSlot n length elem type t p q L l)
      fun elem s hs hspells => ?_).mono ?_
  · obtain ⟨_, _, -, -, hspells⟩ := hspells
    unfold IsArrayType
    by_cases hvalid : elem.isValid = true
    · simp only [hvalid]
      have hwrap : (Shape.array .stack elem length).wrap? = some (.stack length, elem) := rfl
      have hintern := (gives_intern_wrap hs hwrap (hspells.lt_size hs.types)).mono
        fun i s' ⟨hretypes, hi⟩ =>
          hretypes.after hs (P := fun T i => T.view i = _) hi fun T wf ht => view_kept nofun wf ht
      refine (gives_andThen hs hintern fun type s1 hs1 _ _ => hslot elem type s1 hs1).mono
        fun v s' hv => hv.mono ?_
      rintro t p q L v ⟨type, _, _, _, ⟨rfl, rfl, htype⟩, hrest, rfl⟩
      exact ⟨type, htype, hrest⟩
    · simp only [hvalid]
      refine (gives_andThen hs (Builds.pure 0 s hs) fun type s1 hs1 _ _ =>
        hslot elem type s1 hs1).mono
        fun v s' hv => hv.mono ?_
      rintro t p q L v ⟨type, _, _, _, ⟨rfl, rfl, rfl⟩, hrest, rfl⟩
      exact ⟨0, rfl, hrest⟩
  · rintro t p q L v ⟨elem, _, _, _, ⟨rfl, rfl, hspells⟩, ⟨type, htype, hrest⟩, rfl⟩
    exact ⟨elem, type, hspells, htype, hrest⟩

theorem builds_loadArray (l : LocalId) (length : UInt32) (span : Span) :
    Builds (loadArray l length span) fun t p q L v =>
      q = p.addValue ∧ L = [] ∧ v = p.value ∧ HasValue t p (.load (.slot l)) span := by
  have harrays := builds_modify (fun s => { s with arrays := s.arrays.push (l, length) }) fun _ =>
    ⟨rfl, rfl, rfl, rfl⟩
  refine (harrays.skip fun _ => (builds_newValue (.load (.slot l)) span).bind fun out =>
    (builds_markValue out .synthetic).skip fun _ => .pure out).mono ?_
  rintro t p q L v ⟨_, _, _, _, ⟨rfl, rfl, rfl, hout⟩, ⟨rfl, rfl, rfl⟩, rfl⟩
  exact ⟨rfl, rfl, rfl, hout⟩

theorem builds_lowerArray {n : ExprNode} {elems : List Expr}
    (hlength : values.length = elems.length) (hlt : elems.length < UInt32.size)
    (htype : (elemType.isMissing || elemType.isComplete) = true)
    (h : ∀ l, Builds (fillArray l 0 values) fun t p q L _ => LowersElems c t l 0 elems p q L) :
    LowersAs c (lowerArray c n elemType values) (.array n elems elemType) := by
  rw [lowerArray_eq _ _ _ (hlength ▸ hlt), hlength]
  refine ((builds_openArray _ htype).bind fun l => (h l).bind fun _ =>
    builds_loadArray l _ n.span).mono ?_
  rintro t p q L v ⟨l, _, _, _, ⟨elem, type, hspells, htype, name, hlocal, halloc, hline, rfl,
    rfl, rfl⟩, ⟨_, _, L1, _, helems, ⟨rfl, rfl, rfl, hout⟩, rfl⟩, rfl⟩
  rw [append_nil]
  exact .array hspells htype hlocal halloc hline helems hout

end UnitCheck.Lowering
