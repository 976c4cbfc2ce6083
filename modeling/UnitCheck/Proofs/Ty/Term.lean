import UnitCheck.Proofs.Ty.Table

/-!
# Types as terms

An identifier names a type only together with the table, and a variable stands for something only
together with its bindings. A `TypeTerm` is the whole type written out, without modifiers and
without the lengths that fitting ignores, so that two types can be compared apart from both.

`Denotes t σ i u` says that identifier `i` of table `t` is the term `u` once variables are replaced
by what `σ` binds them to. It is a relation because bindings might turn in a circle; that they do
not is what the environment of inference has to maintain. Without bindings the term can be computed
(`TypeTable.termOf`).

`Compatible` is the relation that a value's type has to the type that is expected of it.
-/

namespace UnitCheck

inductive Atom
  | plain (k : Kind)
  | int (width : UInt8)
  | uint (width : UInt8)
  | float (width : UInt8)
  | named (decl : DeclId)
deriving DecidableEq

def Atom.kind : Atom → Kind
  | plain k => k
  | int _ => .int
  | uint _ => .uint
  | float _ => .float
  | named _ => .named

/-- A constructor of types with one part. Only an array on the stack has its length in its type. -/
inductive Wrapper
  | stack (count : UInt32)
  | heap
  | slice
  | reference (isMut : Bool)
  | pointer
  | optional
deriving DecidableEq

inductive TypeTerm
  /-- There is no such type. -/
  | missing
  | atom (a : Atom)
  | wrap (w : Wrapper) (elem : TypeTerm)
  | fn (params : List TypeTerm) (result : TypeTerm)
  /-- A variable that stands for nothing. -/
  | var (v : VarId)

namespace TypeTerm

abbrev error : TypeTerm := atom (.plain .error)

def isReference : TypeTerm → Bool
  | wrap (.reference _) _ => true
  | _ => false

/-- A leaf that is no untyped kind. -/
def isTyped : TypeTerm → Prop
  | atom (.plain k) => k.isUntyped = false
  | _ => True

/-- Every leaf has a property: every atom, every variable and every missing part. -/
inductive Leaves (P : TypeTerm → Prop) : TypeTerm → Prop
  | missing : P missing → Leaves P missing
  | atom {a : Atom} : P (atom a) → Leaves P (atom a)
  | wrap {w : Wrapper} {u : TypeTerm} : Leaves P u → Leaves P (wrap w u)
  | fn {ps : List TypeTerm} {r : TypeTerm} :
      (∀ p ∈ ps, Leaves P p) → Leaves P r → Leaves P (fn ps r)
  | var {v : VarId} : P (var v) → Leaves P (var v)

theorem Leaves.mono {P Q : TypeTerm → Prop} (hPQ : ∀ u, P u → Q u) {u : TypeTerm}
    (h : u.Leaves P) : u.Leaves Q := by
  induction h with
  | missing h => exact .missing (hPQ _ h)
  | atom h => exact .atom (hPQ _ h)
  | wrap _ ih => exact .wrap ih
  | fn _ _ ihp ihr => exact .fn ihp ihr
  | var h => exact .var (hPQ _ h)

/-- The term down to a depth; what is deeper is the error type. -/
def cut : Nat → TypeTerm → TypeTerm
  | 0, _ => error
  | n + 1, wrap w u => wrap w (cut n u)
  | n + 1, fn ps r => fn (ps.map (cut n)) (cut n r)
  | _ + 1, u => u

/-- `u'` is `u` with each variable `v` replaced by a term that `R` has for it. What is deeper than
`n` is the error type, and that happens only if `D`. -/
inductive Fills (D : Prop) (R : VarId → TypeTerm → Prop) : Nat → TypeTerm → TypeTerm → Prop
  | deep {u : TypeTerm} : D → Fills D R 0 u error
  | missing {n : Nat} : Fills D R (n + 1) missing missing
  | atom {n : Nat} {a : Atom} : Fills D R (n + 1) (atom a) (atom a)
  | wrap {n : Nat} {w : Wrapper} {u u' : TypeTerm} :
      Fills D R n u u' → Fills D R (n + 1) (wrap w u) (wrap w u')
  | fn {n : Nat} {us us' : List TypeTerm} {r r' : TypeTerm} : us.length = us'.length →
      (∀ (k : Nat) (q q' : TypeTerm), us[k]? = some q → us'[k]? = some q' → Fills D R n q q') →
      Fills D R n r r' → Fills D R (n + 1) (fn us r) (fn us' r')
  | var {n : Nat} {v : VarId} {u : TypeTerm} : R v u → Fills D R (n + 1) (var v) u

namespace Fills

variable {D D' : Prop} {R R' : VarId → TypeTerm → Prop} {n : Nat} {u u' : TypeTerm}

theorem mono (h : Fills D R n u u') (hD : D → D') (hR : ∀ v w, R v w → R' v w) :
    Fills D' R' n u u' := by
  induction h with
  | deep h => exact .deep (hD h)
  | missing => exact .missing
  | atom => exact .atom
  | wrap _ ih => exact .wrap ih
  | fn hlen _ _ ihps ihr => exact .fn hlen ihps ihr
  | var h => exact .var (hR _ _ h)

/-- If variables stay, the term is only cut. -/
theorem eq_cut (h : Fills D (fun v w => w = .var v) n u u') : u' = u.cut n := by
  induction h with
  | deep => rfl
  | missing | atom => rfl
  | wrap _ ih => rw [ih]; rfl
  | @fn n us us' r r' hlen _ _ ihps ihr =>
    congr 1
    refine List.ext_getElem? fun k => ?_
    rw [List.getElem?_map]
    by_cases hk : k < us.length
    · have hq := List.getElem?_eq_getElem hk
      have hq' := List.getElem?_eq_getElem (hlen ▸ hk : k < us'.length)
      rw [hq, hq', Option.map_some, ihps k _ _ hq hq']
    · rw [List.getElem?_eq_none (by omega), List.getElem?_eq_none (by omega), Option.map_none]
  | var h => exact h

/-- If nothing is cut and nothing is replaced, the term is the same and has no variables. -/
theorem eq_self (h : Fills False (fun _ _ => False) n u u') :
    u' = u ∧ u.Leaves fun l => ∀ v, l ≠ .var v := by
  induction h with
  | deep h | var h => exact h.elim
  | missing => exact ⟨rfl, .missing nofun⟩
  | atom => exact ⟨rfl, .atom nofun⟩
  | wrap _ ih => exact ⟨by rw [ih.1], .wrap ih.2⟩
  | @fn n us us' r r' hlen _ _ ihps ihr =>
    refine ⟨?_, .fn (fun q hq => ?_) ihr.2⟩
    · rw [ihr.1]
      congr 1
      refine List.ext_getElem? fun k => ?_
      by_cases hk : k < us.length
      · have hq := List.getElem?_eq_getElem hk
        have hq' := List.getElem?_eq_getElem (hlen ▸ hk : k < us'.length)
        rw [hq, hq', (ihps k _ _ hq hq').1]
      · rw [List.getElem?_eq_none (by omega), List.getElem?_eq_none (by omega)]
    · obtain ⟨k, hk, rfl⟩ := List.mem_iff_getElem.1 hq
      have hq := List.getElem?_eq_getElem hk
      have hq' := List.getElem?_eq_getElem (hlen ▸ hk : k < us'.length)
      exact (ihps k _ _ hq hq').2

end Fills

end TypeTerm

/-! ## Compatible types -/

/-- A value of type `got` may stand where `expect` is expected. What is `free` goes with everything,
equal terms go together, so do terms with the same constructor whose parts do, and a reference goes
where its referent is expected. -/
inductive Compatible (free : TypeTerm → Prop) : (expect got : TypeTerm) → Prop
  | freeLeft {a b : TypeTerm} : free a → Compatible free a b
  | freeRight {a b : TypeTerm} : free b → Compatible free a b
  | refl (a : TypeTerm) : Compatible free a a
  | wrap (w : Wrapper) {a b : TypeTerm} : Compatible free a b →
      Compatible free (.wrap w a) (.wrap w b)
  | fn {ps qs : List TypeTerm} {r s : TypeTerm} : ps.length = qs.length →
      (∀ (k : Nat) (p q : TypeTerm), ps[k]? = some p → qs[k]? = some q → Compatible free p q) →
      Compatible free r s → Compatible free (.fn ps r) (.fn qs s)
  | copy (isMut : Bool) {a b : TypeTerm} : a.isReference = false → Compatible free a b →
      Compatible free a (.wrap (.reference isMut) b)

/-- The terms that go with everything while a unit is being typed: the type of what could not be
typed, and no type at all. -/
def TypeTerm.isAbsorbing (u : TypeTerm) : Prop := u = .error ∨ u = .missing

namespace Compatible

variable {free free' : TypeTerm → Prop} {a b : TypeTerm}

/-- Terms whose leaves are not free are compatible without the rules for free terms. -/
theorem of_leaves (h : Compatible free a b) (hwrap : ∀ w u, ¬ free (.wrap w u))
    (hfn : ∀ ps r, ¬ free (.fn ps r)) (ha : a.Leaves (¬ free ·)) (hb : b.Leaves (¬ free ·)) :
    Compatible (fun _ => False) a b := by
  have head {u : TypeTerm} (hu : u.Leaves (¬ free ·)) : ¬ free u := by
    cases hu with
    | missing h | atom h | var h => exact h
    | wrap => exact hwrap _ _
    | fn => exact hfn _ _
  induction h with
  | freeLeft hfree => exact absurd hfree (head ha)
  | freeRight hfree => exact absurd hfree (head hb)
  | refl a => exact .refl a
  | wrap w _ ih =>
    cases ha with | wrap ha => cases hb with | wrap hb => exact .wrap w (ih ha hb)
  | fn hlen _ _ ihp ihr =>
    cases ha with | fn hap har => cases hb with | fn hbp hbr =>
    refine .fn hlen (fun k p q hp hq => ?_) (ihr har hbr)
    exact ihp k p q hp hq (hap p (List.mem_of_getElem? hp)) (hbp q (List.mem_of_getElem? hq))
  | copy isMut href _ ih =>
    cases hb with | wrap hb => exact .copy isMut href (ih ha hb)

/-- Equal terms are compatible also if they are cut at different depths. -/
theorem cut_self (hfree : free .error) (m n : Nat) (a : TypeTerm) :
    Compatible free (a.cut m) (a.cut n) := by
  induction m generalizing n a with
  | zero => exact .freeLeft hfree
  | succ m ih =>
    cases n with
    | zero => exact .freeRight hfree
    | succ n =>
      cases a with
      | missing | atom | var => exact .refl _
      | wrap w u => exact .wrap w (ih n u)
      | fn ps r =>
        refine .fn (by simp) (fun k p q hp hq => ?_) (ih n r)
        rw [List.getElem?_map] at hp hq
        obtain ⟨u, hu, rfl⟩ := Option.map_eq_some_iff.1 hp
        obtain ⟨u', hu', rfl⟩ := Option.map_eq_some_iff.1 hq
        cases hu.symm.trans hu'
        exact ih n u

theorem isReference_cut (m : Nat) (h : a.isReference = false) : (a.cut m).isReference = false := by
  cases m with
  | zero => rfl
  | succ m =>
    cases a with
    | wrap w u => cases w <;> first | rfl | cases h
    | missing | atom | fn | var => rfl

/-- Compatible terms are compatible also if they are cut, even at different depths. -/
theorem cut (hfree : ∀ u, free u → ∀ m, free (u.cut m)) (herror : free .error)
    (h : Compatible free a b) (m n : Nat) : Compatible free (a.cut m) (b.cut n) := by
  induction h generalizing m n with
  | freeLeft h => exact .freeLeft (hfree _ h m)
  | freeRight h => exact .freeRight (hfree _ h n)
  | refl a => exact cut_self herror m n a
  | wrap w _ ih =>
    cases m with
    | zero => exact .freeLeft herror
    | succ m =>
      cases n with
      | zero => exact .freeRight herror
      | succ n => exact .wrap w (ih m n)
  | fn hlen _ _ ihp ihr =>
    cases m with
    | zero => exact .freeLeft herror
    | succ m =>
      cases n with
      | zero => exact .freeRight herror
      | succ n =>
        refine .fn (by simpa using hlen) (fun k p q hp hq => ?_) (ihr m n)
        rw [List.getElem?_map] at hp hq
        obtain ⟨u, hu, rfl⟩ := Option.map_eq_some_iff.1 hp
        obtain ⟨u', hu', rfl⟩ := Option.map_eq_some_iff.1 hq
        exact ihp k u u' hu hu' m n
  | copy isMut href _ ih =>
    cases n with
    | zero => exact .freeRight herror
    | succ n => exact .copy isMut (isReference_cut m href) (ih m n)

end Compatible

end UnitCheck
