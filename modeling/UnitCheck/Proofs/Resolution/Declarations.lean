import UnitCheck.Proofs.Resolution.Outcome
import UnitCheck.Syntax.Build

/-!
# Every declaration is accounted for

Resolving a well-formed tree gives each site one declaration, behind those of the built-in types,
and binds each declaration once, in the scope that it records. Where a name has only one meaning the
last declaration decides, and there are as many faults as declarations that replace another.
-/

namespace UnitCheck.Resolution

open List Syntax Scope

/-- The log of declarations that a program asks for, newest first: the built-in types and what is
declared in program order, each with its kind, name and span as they are written, with the number
that the tree `u` has at its site and in the scope that `u` has at its region. -/
def expectedLog (t u : Tree) : List Declared := ((items t).map (Item.declared u .root)).reverse

/-- The declarations of a resolved program and the faults about names that are declared again, all
of them told by the program and by the numbers of its sites and scopes. -/
structure Itemised (t : Tree) (r : Resolved) : Prop extends Zoned t r.tree r.table where
  numbered : (outline t).sites.map (declAt r.tree) =
    (List.range' 17 (outline t).sites.length).map fun n => some ⟨n⟩
  size : r.table.decls.size = 16 + (outline t).sites.length
  log : r.table.decls.log = expectedLog t r.tree
  once : ∀ d ∈ expectedLog t r.tree, (∃ sc, r.table.get? d.scope = some sc) ∧
    ∀ {i sc}, r.table.get? i = some sc →
      ((sc.bindings d.entry.kind.space).map fun b => b.2.decl).count d.entry.decl =
        if i = d.scope then 1 else 0
  /-- Newest first. -/
  bindings : ∀ {i sc}, r.table.get? i = some sc → ∀ x,
    sc.bindings x = boundIn x i (expectedLog t r.tree)
  newest : ∀ {i sc}, r.table.get? i = some sc → ∀ x name,
    (sc.bindings x).newest? name = (last? x i name (expectedLog t r.tree)).map Declared.entry
  overrides : (r.faults.filter fun f => f.code == .scopeOverride).map mark =
    (overrides (expectedLog t r.tree)).map fun x => (x.1.entry.span, [x.2.entry.span])
  count : (r.faults.filter fun f => f.code == .scopeOverride).length +
      (keys .types (expectedLog t r.tree)).dedup.length +
      (keys .members (expectedLog t r.tree)).dedup.length =
    16 + (outline t).sites.countP (fun x => x.kind.space = .types) +
      (outline t).sites.countP fun x => x.kind.space = .members

theorem resolve_itemises (t : Tree) (h : WellFormed t) : ∃ r, resolve t = .ok r ∧ Itemised t r := by
  obtain ⟨_, s, hrun, hout⟩ := (freshTable_initial t).gives_resolveProgram h
  have haccounts := hout.accounts
  have hkinds : s.table.decls.items.toList.map Decl.kind =
      List.replicate 16 .type ++ (outline t).sites.map Site.kind := by
    have htags := congrArg (List.map Prod.fst) hout.tags
    rw [Decls.tags, map_map, map_append, map_map, map_map] at htags
    exact htags.trans (congrArg (· ++ _) (map_const ..))
  let r : Resolved := ⟨{ s.tree with names := s.table.names }, s.table, s.impls,
    s.table.faults.toList⟩
  have hdecl : declAt r.tree = declAt s.tree := funext (declAt_names s.tree s.table.names)
  have hscope : scopeAt r.tree = scopeAt s.tree := funext (scopeAt_names s.tree s.table.names)
  have hlog : s.table.decls.log = expectedLog t r.tree := by
    have hsame : Item.declared r.tree .root = Item.declared s.tree .root :=
      funext fun x => Item.declared_congr (congrFun hdecl _) (congrFun hscope _)
    rw [hout.log, expectedLog, hsame]
  refine ⟨r, by rw [resolve, hrun], ?_⟩
  refine ⟨⟨hscope ▸ hout.scopes, hout.scopes_size, hscope ▸ hout.nested⟩, hdecl ▸ hout.numbered,
    ?_, hlog,
    hlog ▸ fun d hd => ⟨Table.exists_get? (haccounts.placed d hd), haccounts.count_eq hd⟩,
      hlog ▸ haccounts.bindings, fun hsc x name => ?_, hlog ▸ haccounts.overrides, ?_⟩
  · have hlength := congrArg List.length hkinds
    rwa [length_map, Array.length_toList, length_append, length_replicate, length_map] at hlength
  · rw [haccounts.bindings hsc, newest?_boundIn, hlog]
  · have hlength := congrArg List.length haccounts.overrides
    rw [length_map, length_map] at hlength
    have hcount := length_overrides s.table.decls.log
    rw [← hlength, length_keys, length_keys, hkinds, countP_append, countP_append,
      countP_map, countP_map, countP_replicate, countP_replicate, if_pos (by decide),
      if_neg (by decide), Nat.zero_add, hlog] at hcount
    exact hcount

/-- A unit that declares `int` again, with one field twice: `type int struct { a; a }`. -/
def redeclaring : Tree :=
  let build : Build Unit := do
    Build.pushRoot (← Build.typeDecl .zero ⟨0, 5, 8⟩ .struct_ 1
      [⟨20, 0, ⟨0, 18, 19⟩, 0⟩, ⟨20, 0, ⟨0, 21, 22⟩, 0⟩] [] [])
  (build .empty).2

theorem resolve_itemises_redeclaring :
    (outline redeclaring).sites = [.type 1, .field 1 0, .field 1 1] ∧
      ∃ r, resolve redeclaring = .ok r ∧ Itemised redeclaring r ∧
        (r.faults.filter fun f => f.code == .scopeOverride).map mark =
          [(⟨0, 5, 8⟩, [.zero]), (⟨0, 21, 22⟩, [⟨0, 18, 19⟩])] := by
  obtain ⟨r, hr, h⟩ := resolve_itemises redeclaring (by decide +kernel)
  refine ⟨by decide +kernel, r, hr, h, ?_⟩
  have hmarks : (match resolve redeclaring with
      | .ok r => (r.faults.filter fun f => f.code == .scopeOverride).map mark
      | .error _ => []) = [(⟨0, 5, 8⟩, [.zero]), (⟨0, 21, 22⟩, [⟨0, 18, 19⟩])] := by decide +kernel
  rwa [hr] at hmarks

end UnitCheck.Resolution
