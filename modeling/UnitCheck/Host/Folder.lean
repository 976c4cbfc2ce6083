import UnitCheck.Host.Basic
import UnitCheck.Text.Path

/-!
# A directory that is a value

`Folder` holds files and directories by their absolute paths and is the state of a `Host`. Time
stands still in it.
-/

namespace UnitCheck

inductive FolderNode
  | dir
  | file (content : List UInt8)
deriving DecidableEq

/-- Files and directories by the parts of their absolute paths, newest first. The root needs no
entry. -/
structure Folder where
  /-- The directory from which relative paths are seen. -/
  workingDir : Text
  nodes : List (List Text × FolderNode)
  env : List (Text × Text)

namespace Folder

def empty (workingDir : Text) (env : List (Text × Text)) : Folder :=
  let parts := Path.parts workingDir
  ⟨workingDir, (List.range parts.length).map fun n => (parts.take (n + 1), .dir), env⟩

def parts (f : Folder) (p : Text) : List Text := Path.parts (Path.absolute f.workingDir p)

def node? (f : Folder) (ps : List Text) : Option FolderNode :=
  if ps.isEmpty then some .dir else f.nodes.lookup ps

/-- Why nothing can be at a place: what stands above it, from the root on, must be directories. -/
def blocked? (f : Folder) (ps : List Text) : Option PathFailure :=
  (List.range ps.length).findSome? fun n =>
    match f.node? (ps.take n) with
    | some .dir => none
    | some (.file _) => some .notDirectory
    | none => some .notFound

/-- What a path leads to. A part that is a file has nothing below it. -/
def find (f : Folder) (p : Text) : Except PathFailure FolderNode :=
  if p.isEmpty then .error .notFound
  else if p.bytes.contains 0 then .error .invalid
  else
    let ps := f.parts p
    match f.blocked? ps with
    | some failure => .error failure
    | none =>
      match f.node? ps with
      | some (.file c) => if p.endsWith "/" then .error .notDirectory else .ok (.file c)
      | some .dir => .ok .dir
      | none => .error .notFound

def set (f : Folder) (ps : List Text) (n : FolderNode) : Folder :=
  { f with nodes := (ps, n) :: f.nodes.filter fun (qs, _) => qs != ps }

/-! ### The actions -/

def failing {α : Type} (action path : Text) : Except PathFailure α → Except PathError α
  | .ok a => .ok a
  | .error e => .error ⟨action, path, e⟩

def stat (f : Folder) (p : Text) : Except PathError Bool := do
  return (← failing "stat" p (f.find p)) == .dir

def entries (f : Folder) (p : Text) : Except PathError (List DirEntry) := do
  match ← failing "open" p (f.find p) with
  | .file _ => .error ⟨"readdirent", p, .notDirectory⟩
  | .dir =>
    let ps := f.parts p
    let below := f.nodes.filterMap fun (qs, n) =>
      if qs.length = ps.length + 1 ∧ qs.take ps.length = ps then
        qs.getLast?.map fun name => ⟨name, n == .dir⟩
      else none
    return below.mergeSort fun a b => a.name.le b.name

def read (f : Folder) (p : Text) : Except PathError (List UInt8) := do
  match ← failing "open" p (f.find p) with
  | .file c => return c
  | .dir => .error ⟨"read", p, .isDirectory⟩

/-- Writing creates a file in a directory that exists. -/
def write (f : Folder) (p : Text) (content : List UInt8) : Except PathError Folder :=
  match f.find p with
  | .ok .dir => .error ⟨"open", p, .isDirectory⟩
  | .ok (.file _) => .ok (f.set (f.parts p) (.file content))
  | .error .notFound =>
    let ps := f.parts p
    if p.isEmpty ∨ f.node? ps.dropLast ≠ some .dir then .error ⟨"open", p, .notFound⟩
    else if p.endsWith "/" then .error ⟨"open", p, .isDirectory⟩
    else .ok (f.set ps (.file content))
  | .error e => .error ⟨"open", p, e⟩

/-- Makes the directories with the first `n` parts of a path, for every `n`, outermost first. -/
def makeEach (f : Folder) (all : List Text) : List Nat → Except PathError Folder
  | [] => .ok f
  | n :: ns =>
    match f.node? (all.take n) with
    | some .dir => makeEach f all ns
    | some (.file _) => .error ⟨"mkdir", Path.ofParts true (all.take n), .notDirectory⟩
    | none => makeEach (f.set (all.take n) .dir) all ns

def makeDirs (f : Folder) (p : Text) : Except PathError Folder :=
  if p.isEmpty then .error ⟨"mkdir", p, .notFound⟩
  else
    let ps := f.parts p
    match makeEach f ps (List.range (ps.length + 1)) with
    | .ok g => .ok g
    | .error e => .error { e with path := p }

def isUnder (top ps : List Text) : Bool := top.isPrefixOf ps

def removeAll (f : Folder) (p : Text) : Folder :=
  let ps := f.parts p
  { f with nodes := f.nodes.filter fun (qs, _) => !isUnder ps qs }

def rename (f : Folder) (source target : Text) : Except PathError Folder := do
  let _ ← failing "rename" (source ++ " " ++ target) (f.find source)
  let ps := f.parts source
  let qs := f.parts target
  let moved := fun (rs : List Text) => if isUnder ps rs then qs ++ rs.drop ps.length else rs
  let others := f.nodes.filter fun (rs, _) => !isUnder qs rs
  return { f with nodes := others.map fun (rs, n) => (moved rs, n) }

/-! ### The host -/

def change (act : Folder → Except PathError Folder) : StateM Folder (Except PathError Unit) := do
  match act (← get) with
  | .ok f =>
    MonadState.set f
    return .ok ()
  | .error e => return .error e

/-- The host whose files are the state. -/
def host : Host (StateM Folder) where
  now := return 0
  workingDir := return (← get).workingDir
  envVar name := return ((← get).env.lookup name).getD .empty
  stat p := return (← get).stat p
  entries p := return (← get).entries p
  read p := return (← get).read p
  write p content := change (·.write p content)
  makeDirs p := change (·.makeDirs p)
  rename source target := change (·.rename source target)
  removeAll p := change fun f => .ok (f.removeAll p)

end Folder

end UnitCheck
