import UnitCheck.Proofs.Resolution.Outcome
import UnitCheck.Syntax.Build

/-!
# Name resolution is lexical scoping

On every well-formed tree name resolution gives a result, and what it records at each use, the
candidates of each call and the faults about names that were not found are those of `Lexical`.
-/

namespace UnitCheck.Resolution

open Syntax Syntax.Build

/-- **Name resolution is lexical scoping.** On a well-formed tree it gives a result, in which

* every site has a declaration of its own, numbered behind the built-in types;
* every use of a value or a type records the declaration that lexical scoping gives it, and is left
  as it was if there is none; a callee records all functions that it may mean, innermost and newest
  first;
* a callee that means a function means the first of them;
* exactly the uses without a meaning are reported as not found, each once, in program order. -/
theorem resolve_eq_lexical (t : Tree) (h : WellFormed t) :
    ∃ r, resolve t = .ok r ∧
      (outline t).sites.map (declAt r.tree) =
        (List.range' (Scope.Table.preludeNames.length + 1)
          (outline t).sites.length).map (fun n => some ⟨n⟩) ∧
      (∀ u ∈ uses t, u.Recorded t r.tree) ∧
      (∀ u ∈ uses t, ∀ call n x, u.mention = .callee call n → u.site? = some x →
        x.kind = .function → ∃ d rest, declAt r.tree x = some d ∧
          noteAt r.tree (.ident n.record) = some [d] ∧
            noteAt r.tree (.call call) = some (d :: rest)) ∧
      (r.faults.filter fun f => f.code == .notFoundInScope) =
        ((uses t).filter fun u => u.site?.isNone).map (Use.fault r.tree.names) := by
  obtain ⟨_, s, hrun, hout⟩ := (freshTable_initial t).gives_resolveProgram h
  -- the names of the tree are not part of what is read
  have hdecl := declAt_names s.tree s.table.names
  have hnote := noteAt_names s.tree s.table.names
  refine ⟨⟨{ s.tree with names := s.table.names }, s.table, s.impls, s.table.faults.toList⟩,
    by rw [resolve, hrun], ?_, fun u hu => ?_, fun u hu call n x hcall hx hkind => ?_,
    hout.unfound⟩
  · rw [funext hdecl]
    exact hout.numbered
  · have hrec := hout.recorded u hu
    exact ⟨by rw [hnote, funext hdecl, hrec.decl], fun call n hcall => by
      rw [hnote, funext hdecl, hrec.candidates call n hcall]⟩
  · have hrec := hout.recorded u hu
    have hnoted := hout.noted u hu _ u.mention.place_mem_places
    have hplace : u.mention.place = .ident n.record := by rw [hcall]; rfl
    have hself := hrec.decl
    rw [hx, hplace] at hself
    simp only at hself
    rw [hplace, hself] at hnoted
    obtain ⟨d, hd⟩ := Option.isSome_iff_exists.1 ((Option.isSome_map ..).symm.trans hnoted)
    obtain ⟨fs, hfs⟩ := List.head?_eq_some_iff.1
      (Use.head?_functions (fun n' hn' => by rw [hcall] at hn'; cases hn') hx hkind)
    refine ⟨d, fs.filterMap (declAt s.tree), by rw [hdecl, hd], by rw [hnote, hself, hd]; rfl, ?_⟩
    rw [hnote, hrec.candidates call n hcall, hfs, List.filterMap_cons_some hd]

/-- A unit in which `x` is a variable, a parameter and once more a variable, and `y` is nothing:
`var x = 1; fn f(x) { var x = x; f(x); y }`. -/
def shadowing : Tree :=
  let build : Build Unit := do
    let one ← literal .zero .int 4
    pushRoot (← var .zero .zero 1 0 one .default)
    let inner ← var .zero .zero 1 0 (← ident .zero 1) .default
    let call ← call .zero (← ident .zero 2) [← ident .zero 1]
    let again ← exprStmt .zero call true
    let last ← exprStmt .zero (← ident .zero 3) false
    let body ← block .zero [inner, again, last]
    pushRoot (← func .zero .zero 2 [⟨1, 0, .default, .zero, 0⟩] 0 body .default)
  (build .empty).2

theorem site?_shadowing : (uses shadowing).map Use.site? =
    [some (.param 1 0), some (.func 1), some (.var 2), none] := by
  decide +kernel

/-- The first value of the inner `x` is the parameter, the argument behind it is the inner variable,
the function sees itself, and `y` is reported. -/
theorem resolve_eq_lexical_shadowing :
    (uses shadowing).map Use.site? = [some (.param 1 0), some (.func 1), some (.var 2), none] ∧
      ∃ r, resolve shadowing = .ok r ∧ (∀ u ∈ uses shadowing, u.Recorded shadowing r.tree) ∧
        (r.faults.filter fun f => f.code == .notFoundInScope).length = 1 := by
  obtain ⟨r, hr, -, hrec, -, hfaults⟩ := resolve_eq_lexical shadowing (by decide +kernel)
  refine ⟨site?_shadowing, r, hr, hrec, ?_⟩
  have hcount (us : List Use) : (us.filter fun u => u.site?.isNone).length =
      (us.map Use.site?).countP Option.isNone := by
    rw [List.countP_map, List.countP_eq_length_filter]
    rfl
  rw [hfaults, List.length_map, hcount, site?_shadowing]
  rfl

end UnitCheck.Resolution
