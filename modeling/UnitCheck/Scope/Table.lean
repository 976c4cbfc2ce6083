import UnitCheck.Fault.Basic
import UnitCheck.Name
import UnitCheck.Scope.Decl

/-!
# Scopes

A scope binds names. Scopes form a tree: each one but the root has a parent, and one of them is the
current scope. Looking a name up starts at the current scope and goes outwards.

Values, types and members have name spaces of their own. A scope keeps every binding ever made in
it, newest first. For values all of them stay visible, so that overloads and shadowing within a
scope work; for types and members only the newest counts, and replacing one is a fault.

`Scope.Table` grows only. Its operations work in the `Run` monad, because a table whose links were
overwritten can send them to scopes that do not exist.
-/

namespace UnitCheck

inductive ScopeKind
  | global
  | function
  | block
  | type
  | impl
  | invalid
deriving DecidableEq

namespace ScopeKind

def toText : ScopeKind → Text
  | global => "global"
  | function => "function"
  | block => "block"
  | type => "type"
  | impl => "impl"
  | invalid => "invalid"

end ScopeKind

abbrev Bindings := List (NameId × Entry)

namespace Bindings

def of (b : Bindings) (name : NameId) : List Entry :=
  (b.filter fun e => e.1 == name).map Prod.snd

def newest? (b : Bindings) (name : NameId) : Option Entry := (b.of name).head?

/-- The names that are bound, each once, in the order of their identifiers. -/
def names (b : Bindings) : List NameId :=
  (b.map Prod.fst).eraseDups.mergeSort fun a b => a.index ≤ b.index

end Bindings

structure Scope where
  kind : ScopeKind
  /-- The modifier of variables that are declared without one. -/
  modifier : Modifier
  /-- The scope around this one; only the root has none. -/
  parent : Option ScopeId
  /-- The scopes directly inside, in order of creation. -/
  children : List ScopeId
  span : Span
  values : Bindings
  types : Bindings
  /-- Fields and variants of a type; looking a name up never sees them. -/
  members : Bindings

namespace Scope

def fresh (kind : ScopeKind) (modifier : Modifier) (parent : Option ScopeId) (span : Span) :
    Scope :=
  ⟨kind, modifier, parent, [], span, [], [], []⟩

def isRoot (s : Scope) : Bool := s.parent.isNone

structure Table where
  scopes : Array Scope
  current : ScopeId
  decls : Decls
  names : NameTable
  faults : Array Fault

namespace Table

def preludeNames : List String :=
  ["int", "i8", "i16", "i32", "i64", "uint", "u8", "u16", "u32", "u64", "f32", "f64", "bool",
   "char", "str", "none"]

def install (t : Table) (name : String) : Table :=
  let (names, i) := t.names.intern name
  let decl := { Decl.fresh .type i .zero .default with builtin := true }
  let (decls, d) := t.decls.push decl
  let bind := fun s : Scope => { s with types := (i, ⟨d, .type, .zero⟩) :: s.types }
  { t with names, decls, scopes := t.scopes.modify 0 bind }

/-- A table whose root knows the built-in types only. -/
def initial (names : NameTable) : Table :=
  preludeNames.foldl install
    ⟨#[.fresh .global .mutable none .zero], .root, .empty, names, #[]⟩

def size (t : Table) : Nat := t.scopes.size

def get? (t : Table) (i : ScopeId) : Option Scope := t.scopes[i.index]?

/-! ### The current scope -/

def report (f : Fault) : Run Table Unit := modify fun t => { t with faults := t.faults.push f }

def currentScope : Run Table Scope := do
  let t ← get
  Run.need (t.get? t.current)

def currentModifier : Run Table Modifier := do
  return (← currentScope).modifier

def modifyCurrent (f : Scope → Scope) : Run Table Unit := do
  let _ ← currentScope
  modify fun t => { t with scopes := t.scopes.modify t.current.index f }

/-- Opens a scope inside the current one and makes it current. -/
def push (kind : ScopeKind) (modifier : Modifier) (span : Span) : Run Table ScopeId := do
  let t ← get
  let i : ScopeId := ⟨t.size⟩
  modifyCurrent fun s => { s with children := s.children ++ [i] }
  modify fun t =>
    { t with scopes := t.scopes.push (.fresh kind modifier (some t.current) span), current := i }
  return i

def pop : Run Table Unit := do
  match (← currentScope).parent with
  | none => throw .popRoot
  | some p => modify fun t => { t with current := p }

/-- Makes any scope current; false, and a fault of the checker, if there is no such scope. -/
def goTo (i : ScopeId) : Run Table Bool := do
  let t ← get
  if i.index < t.size then
    set { t with current := i }
    return true
  else
    report (.internal .zero ("scope " ++ Text.ofNat i.index ++ " does not exist (have " ++
      Text.ofNat t.size ++ ")"))
    return false

/-! ### Binding names -/

def insertValue (name : NameId) (e : Entry) : Run Table Unit :=
  modifyCurrent fun s => { s with values := (name, e) :: s.values }

/-- The fault of binding a name again, where only the newest binding counts. -/
def override (message : Text) (e old : Entry) : Fault :=
  (Fault.error .scopeOverride e.span message).withNote old.span "previous declaration here"

def insertType (name : NameId) (e : Entry) : Run Table (Option Entry) := do
  let old? := (← currentScope).types.newest? name
  modifyCurrent fun s => { s with types := (name, e) :: s.types }
  if let some old := old? then
    let shown := (← get).names.display name
    report (override ("type '" ++ shown ++ "' is already declared in this scope") e old)
  return old?

def insertMember (name : NameId) (e : Entry) : Run Table (Option Entry) := do
  let old? := (← currentScope).members.newest? name
  modifyCurrent fun s => { s with members := (name, e) :: s.members }
  if let some old := old? then
    let shown := (← get).names.display name
    report (override
      (e.kind.toText ++ " '" ++ shown ++ "' is already declared in this type") e old)
  return old?

def declare (d : Decl) : Run Table DeclId := do
  let t ← get
  let (decls, i) := t.decls.push { d with scope := t.current }
  set { t with decls }
  let e : Entry := ⟨i, d.kind, d.span⟩
  match d.kind with
  | .type => discard (insertType d.name e)
  | .field | .variant => discard (insertMember d.name e)
  | _ => insertValue d.name e
  return i

/-! ### Looking names up -/

/-- The scopes met on the way outwards from a scope; `none` where a link leads nowhere. -/
def outward (t : Table) : Nat → Option ScopeId → List (Option Scope)
  | 0, _ => []
  | _, none => []
  | n + 1, some i =>
    match t.get? i with
    | none => [none]
    | some s => some s :: outward t n s.parent

/-- The scopes from the current one outwards. A way to the root visits a scope once only, so their
number bounds its length. -/
def enclosing (t : Table) : List (Option Scope) := t.outward (t.size + 1) (some t.current)

def firstOf {α : Type} (ask : Scope → Option α) : List (Option Scope) → Except Abort (Option α)
  | [] => .ok none
  | none :: _ => .error .malformed
  | some s :: rest =>
    match ask s with
    | some a => .ok (some a)
    | none => firstOf ask rest

/-- The innermost, newest value with a name that `visible` accepts. -/
def lookupValue (t : Table) (name : NameId) (visible : Entry → Bool) :
    Except Abort (Option Entry) :=
  firstOf (fun s => (s.values.of name).find? visible) t.enclosing

def lookupType (t : Table) (name : NameId) : Except Abort (Option Entry) :=
  firstOf (fun s => s.types.newest? name) t.enclosing

/-- All functions with a name that can be seen from the current scope, innermost and newest
first. -/
def functions (t : Table) (name : NameId) : Except Abort (List Entry) := do
  let scopes ← t.enclosing.mapM fun
    | some s => .ok s
    | none => .error Abort.malformed
  return scopes.flatMap fun s => (s.values.of name).filter fun e => e.kind == .function

def member? (t : Table) (i : ScopeId) (name : NameId) : Option Entry :=
  match t.get? i with
  | some s => s.members.newest? name
  | none => none

/-! ### Soundness of the links -/

inductive LinkError
  | badRoot
  | badParent (scope : ScopeId) (parent : Option ScopeId)
  | badChildren (scope : ScopeId) (times : Nat) (parent : ScopeId)
  | cycle (scope : ScopeId)
deriving DecidableEq

def LinkError.message : LinkError → Text
  | badRoot => "root scope missing or has a parent"
  | badParent s p =>
    "scope " ++ Text.ofNat s.index ++ " has invalid parent " ++
      Text.ofNat (ScopeId.toWord? p).toNat
  | badChildren s n p =>
    "scope " ++ Text.ofNat s.index ++ " listed " ++ Text.ofNat n ++ " times in parent " ++
      Text.ofNat p.index
  | cycle s => "scope " ++ Text.ofNat s.index ++ " is part of a cycle"

/-- Whether going outwards reaches the root within a number of steps. -/
def reachesRoot (t : Table) : Nat → Option ScopeId → Except Abort Bool
  | 0, i => .ok (i = some .root)
  | n + 1, i =>
    if i = some .root then .ok true
    else match i.bind t.get? with
      | none => .error .malformed
      | some s => reachesRoot t n s.parent

def linkError? (t : Table) (i : ScopeId) (s : Scope) : Except Abort (Option LinkError) :=
  match s.parent, s.parent.bind t.get? with
  | some p, some parent =>
    let times := (parent.children.filter (· == i)).length
    if times ≠ 1 then .ok (some (.badChildren i times p))
    else do
      if ← t.reachesRoot t.size (some i) then return none
      return some (.cycle i)
  | p, _ => .ok (some (.badParent i p))

/-- The first of the remaining scopes whose links are wrong. -/
def firstLinkError (t : Table) : List (Scope × Nat) → Except Abort (Option LinkError)
  | [] => .ok none
  | (s, i) :: rest => do
    match ← t.linkError? ⟨i⟩ s with
    | some e => return some e
    | none => firstLinkError t rest

/-- Checks that the scopes form a tree: each one but the root has one parent, which lists it exactly
once, and all ways outwards reach the root. -/
def validate (t : Table) : Except Abort (Option LinkError) :=
  match t.scopes.toList with
  | [] => .ok (some .badRoot)
  | root :: rest =>
    if root.parent.isSome then .ok (some .badRoot) else t.firstLinkError (rest.zipIdx 1)

end Table

end Scope

end UnitCheck
