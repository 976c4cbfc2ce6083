import UnitCheck.Proofs.Resolution.Known

/-!
# Variables that a use may mean

Whoever makes something for variables and parameters, and follows a program in its order, has to
make it before a use asks for it. `wants env done` are the sites that a use may ask for which stands
in the scopes `env`, with the variables `done` completed: parameters in all of these scopes, and
completed variables.

Going on in the program, only what was completed on the way is wanted in addition, and of that only
what the innermost scope binds (`Apart.forall_wants`); entering a region, only its parameters
(`Apart.forall_wants_frame`). Variables that stand directly in the body of a type or an
implementation are left out, since nothing is made for them; a use can mean one of them nevertheless
(`Use.meansMember`). -/

namespace UnitCheck.Resolution

open List Syntax

/-- Whether a region is the body of a type or an implementation. -/
def Region.isBody : Region → Bool
  | .type _ | .impl _ => true
  | _ => false

/-- Whether a use means a variable that stands directly in the body of a type or an
implementation. -/
def Use.meansMember (u : Use) : Bool :=
  u.site?.any fun x => x.kind == .var &&
    u.frames.any fun f => f.region.isBody && f.values.any fun b => b.2 == x

def Frame.wants (f : Frame) (done : List Site) (x : Site) : Bool :=
  x.kind == .param || x.kind == .var && done.contains x && !f.region.isBody

/-- The sites that a use may ask for. -/
def wants (env : List Frame) (done : List Site) : List Site :=
  env.flatMap fun f => (f.values.map Prod.snd).filter (f.wants done)

variable {env : List Frame} {done : List Site} {x : Site}

theorem mem_wants : x ∈ wants env done ↔
    ∃ f ∈ env, (∃ b ∈ f.values, b.2 = x) ∧ f.wants done x = true := by
  simp [wants]

/-- A use of a value asks for what it means, if that is a parameter or a variable. -/
theorem Use.mem_wants {u : Use} (hvalue : ∀ n, u.mention ≠ .type n) (hx : u.site? = some x)
    (hkind : x.kind = .var ∨ x.kind = .param) (hmember : u.meansMember = false) :
    x ∈ wants u.frames u.completed := by
  obtain ⟨f, hf, hlatest⟩ := exists_of_findSome?_eq_some hx
  obtain ⟨b, hb, rfl⟩ := mem_of_latest?_eq_some hlatest
  have hvisible : b ∈ f.values.filter fun b => u.sees b.2 := by
    unfold Use.visible at hb
    split at hb
    · exact absurd ‹_› (hvalue _)
    · exact hb
  obtain ⟨hmem, hsees⟩ := mem_filter.1 hvisible
  refine mem_wants.2 ⟨f, hf, ⟨b, hmem, rfl⟩, ?_⟩
  rcases hkind with hkind | hkind
  · have hdone : u.completed.contains b.2 = true := by simpa [Use.sees, hkind] using hsees
    have hbody : f.region.isBody = false := by
      by_contra hbody
      rw [Bool.not_eq_false] at hbody
      have hany : (f.region.isBody && f.values.any fun b' => b'.2 == b.2) = true := by
        rw [hbody, Bool.true_and, any_eq_true]
        exact ⟨b, hmem, beq_self_eq_true _⟩
      have hmeans : u.meansMember = true := by
        rw [Use.meansMember, hx, Option.any_some, hkind, beq_self_eq_true, Bool.true_and,
          any_eq_true]
        exact ⟨f, hf, hany⟩
      rw [hmember] at hmeans
      cases hmeans
    simp only [Frame.wants, hkind, hdone, hbody]
    rfl
  · rw [Frame.wants, hkind]
    rfl

/-! ## Following the program -/

/-- A part of a program that is met in the scopes `env`: nothing in it is completed yet, no scope
around binds anything in it, and the innermost scope binds no more of it than what the part binds
there. -/
structure Apart (env : List Frame) (done : List Site) (o : Outline) : Prop where
  nodup : o.sites.Nodup
  fresh : ∀ x ∈ o.sites, x ∉ done
  here : ∀ f ∈ env.head?, ∀ b ∈ f.values, b.2 ∈ o.sites → b ∈ o.values
  around : ∀ f ∈ env.tail, ∀ b ∈ f.values, b.2 ∉ o.sites

namespace Apart

variable {o o' : Outline} {p : Site → Prop}

theorem left (h : Apart env done (o ++ o')) : Apart env done o := by
  obtain ⟨hnodup, -, hdisjoint⟩ := nodup_append.1 h.nodup
  refine ⟨hnodup, fun x hx => h.fresh x (mem_append_left _ hx), fun f hf b hb hmem => ?_,
    fun f hf b hb hmem => h.around f hf b hb (mem_append_left _ hmem)⟩
  rcases mem_append.1 (h.here f hf b hb (mem_append_left _ hmem)) with hb | hb
  · exact hb
  · exact absurd rfl (hdisjoint _ hmem _ (o'.values_mem b hb))

theorem right (h : Apart env done (o ++ o')) : Apart env (done ++ o.completed) o' := by
  obtain ⟨-, hnodup, hdisjoint⟩ := nodup_append.1 h.nodup
  refine ⟨hnodup, fun x hx hdone => ?_, fun f hf b hb hmem => ?_,
    fun f hf b hb hmem => h.around f hf b hb (mem_append_right _ hmem)⟩
  · rcases mem_append.1 hdone with hdone | hdone
    · exact h.fresh x (mem_append_right _ hx) hdone
    · exact absurd rfl (hdisjoint _ (Outline.mem_sites_of_mem_completed hdone) _ hx)
  · rcases mem_append.1 (h.here f hf b hb (mem_append_right _ hmem)) with hb | hb
    · exact absurd rfl (hdisjoint _ (o.values_mem b hb) _ hmem)
    · exact hb

theorem behind (h : Apart env done (o ++ o')) (hsilent : o.completed = []) : Apart env done o' := by
  have hright := h.right
  rwa [hsilent, append_nil] at hright

variable {r : Region}

theorem enter (h : Apart env done (o.enclose r)) : Apart (o.frame r :: env) done o := by
  refine ⟨h.nodup, h.fresh, fun f hf b hb _ => ?_, fun f hf b hb hmem => ?_⟩
  · cases hf
    exact hb
  · cases env with
    | nil => cases hf
    | cons g env =>
      rcases mem_cons.1 hf with rfl | hf
      · exact not_mem_nil (h.here f rfl b hb hmem)
      · exact h.around f hf b hb hmem

/-- Behind a part only what it binds in the innermost scope is wanted in addition. -/
theorem forall_wants (h : Apart env done o) (hold : ∀ x ∈ wants env done, p x)
    (hnew : ∀ f ∈ env.head?, f.region.isBody = false → ∀ b ∈ o.values, b.2.kind = .var → p b.2) :
    ∀ x ∈ wants env (done ++ o.completed), p x := by
  intro x hx
  obtain ⟨f, hf, ⟨b, hb, rfl⟩, hwants⟩ := mem_wants.1 hx
  by_cases hbefore : f.wants done b.2 = true
  · exact hold _ (mem_wants.2 ⟨f, hf, ⟨b, hb, rfl⟩, hbefore⟩)
  -- it was completed in this part
  have hnow : b.2.kind = .var ∧ b.2 ∈ o.completed ∧ f.region.isBody = false := by
    simp only [Frame.wants] at hwants hbefore
    grind
  obtain ⟨hkind, hdone, hbody⟩ := hnow
  have hmem := Outline.mem_sites_of_mem_completed hdone
  cases env with
  | nil => cases hf
  | cons g env =>
    rcases mem_cons.1 hf with rfl | hf
    · exact hnew f rfl hbody b (h.here f rfl b hb hmem) hkind
    · exact absurd hmem (h.around f hf b hb)

/-- In a region only its parameters are wanted in addition: no variable in it is completed. -/
theorem forall_wants_frame (h : Apart env done (o.enclose r))
    (hold : ∀ x ∈ wants env done, p x) (hnew : ∀ b ∈ o.values, b.2.kind = .param → p b.2) :
    ∀ x ∈ wants (o.frame r :: env) done, p x := by
  intro x hx
  obtain ⟨f, hf, ⟨b, hb, rfl⟩, hwants⟩ := mem_wants.1 hx
  rcases mem_cons.1 hf with rfl | hf
  · have hfresh : b.2 ∉ done := h.fresh b.2 (o.values_mem b hb)
    have hparam : b.2.kind = .param := by simpa [Frame.wants, hfresh] using hwants
    exact hnew b hb hparam
  · exact hold _ (mem_wants.2 ⟨f, hf, ⟨b, hb, rfl⟩, hwants⟩)

end Apart

/-! ## What parts of a program bind -/

mutual

theorem values_outlineExpr : (e : Expr) → (outlineExpr e).values = []
  | .absent _ | .lost | .bare _ _ | .ident _ _ | .literal _ _ _ | .block _ _ => rfl
  | .binary _ _ left right | .index _ left right | .whileLoop _ left right =>
    append_eq_nil_iff.2 ⟨values_outlineExpr left, values_outlineExpr right⟩
  | .unary _ _ e | .ref _ _ e | .deref _ e | .field _ e _ | .cast _ e _ => values_outlineExpr e
  | .call _ callee args =>
    append_eq_nil_iff.2 ⟨values_outlineExpr callee, values_outlineExprs args⟩
  | .array _ elems _ => values_outlineExprs elems
  | .ifElse _ cond body arms => append_eq_nil_iff.2 ⟨values_outlineExpr cond,
      append_eq_nil_iff.2 ⟨values_outlineExpr body, values_outlineArms arms⟩⟩
  | .forLoop _ _ _ iter _ => append_eq_nil_iff.2 ⟨values_outlineExpr iter, rfl⟩

theorem values_outlineExprs : (es : List Expr) → (outlineExprs es).values = []
  | [] => rfl
  | e :: es => append_eq_nil_iff.2 ⟨values_outlineExpr e, values_outlineExprs es⟩

theorem values_outlineArms : (arms : List Arm) → (outlineArms arms).values = []
  | [] => rfl
  | .mk _ cond body _ :: arms => append_eq_nil_iff.2 ⟨values_outlineExpr cond,
      append_eq_nil_iff.2 ⟨values_outlineExpr body, values_outlineArms arms⟩⟩

end

variable {b : Binder}

/-- A site that is declared binds itself, if anything. -/
theorem eq_of_mem_values_declare {name : NameId} {span : Span}
    (h : b ∈ (Outline.declare name x span).values) :
    b = (name, x) := by
  unfold Outline.declare at h
  dsimp only at h
  split at h
  all_goals first | exact mem_singleton.1 h | cases h

theorem binder_of_stmt {s : Stmt} (h : b ∈ (outlineStmt s).values) :
    b.2.kind = .function ∨ ∃ n name nameSpan type value modifier,
      s = .var n name nameSpan type value modifier ∧ b.2 = .var n.record := by
  cases s with
  | absent | lost | bare | typeDecl | impl => cases h
  | var n name nameSpan type value modifier =>
    replace h : b ∈ (outlineExpr value).values ++ _ := h
    rw [values_outlineExpr, nil_append] at h
    rw [eq_of_mem_values_declare h]
    exact .inr ⟨n, name, nameSpan, type, value, modifier, rfl, rfl⟩
  | func n name _ params _ body =>
    rw [eq_of_mem_values_declare ((mem_append.1 h).resolve_right not_mem_nil)]
    exact .inl rfl
  | assign _ target value =>
    replace h : b ∈ (outlineExpr target).values ++ (outlineExpr value).values := h
    rw [values_outlineExpr, values_outlineExpr] at h
    cases h
  | expr _ e | jump _ _ e =>
    replace h : b ∈ (outlineExpr e).values := h
    rw [values_outlineExpr] at h
    cases h

theorem kind_ne_param_of_mem_stmts (ss : List Stmt) (h : b ∈ (outlineStmts ss).values) :
    b.2.kind ≠ .param := by
  induction ss with
  | nil => cases h
  | cons s ss ih =>
    rcases mem_append.1 h with h | h
    · rcases binder_of_stmt h with hkind | ⟨n, _, _, _, _, _, -, hb⟩
      · rw [hkind]
        nofun
      · rw [hb]
        nofun
    · exact ih h

theorem kind_ne_param_of_mem_body {e : Expr} (h : b ∈ (outlineBody e).values) :
    b.2.kind ≠ .param := by
  have hother := values_outlineExpr e
  cases e with
  | block _ stmts => exact kind_ne_param_of_mem_stmts stmts h
  | _ =>
    replace h : b ∈ (outlineExpr _).values := h
    rw [hother] at h
    cases h

theorem mem_values_outlineEach {site : Nat → Site} {i : Nat} {as : List (NameId × Span)}
    (h : b ∈ (outlineEach site i as).values) : ∃ k < as.length, b.2 = site (i + k) := by
  induction as generalizing i with
  | nil => cases h
  | cons a as ih =>
    rcases mem_append.1 h with h | h
    · exact ⟨0, Nat.succ_pos _, by rw [eq_of_mem_values_declare h]; rfl⟩
    · obtain ⟨k, hk, hb⟩ := ih h
      exact ⟨k + 1, Nat.succ_lt_succ hk, by rw [hb, Nat.add_assoc, Nat.add_comm 1]⟩

end UnitCheck.Resolution
