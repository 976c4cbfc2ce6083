import UnitCheck.Check.Session

/-!
# Checking files

Units are read from files, each with a verdict of its own. A file that cannot be read or holds no
unit has a verdict too: it fails, with one fault that says why.
-/

namespace UnitCheck.Check

variable {m : Type → Type} [Monad m]

/-! ### Finding files -/

/-- The unit files below a directory that is `depth` levels deep at most, directories in the order
of their names. -/
def filesBelow (h : Host m) : Nat → Text → m (Except PathError (List Text))
  | 0, _ => return .ok []
  | depth + 1, dir => do
    match ← h.entries dir with
    | .error e => return .error e
    | .ok es => each depth dir es
where
  each (depth : Nat) (dir : Text) : List DirEntry → m (Except PathError (List Text))
    | [] => return .ok []
    | e :: es => do
      let path := Path.join [dir, e.name]
      let here ← if e.isDir then filesBelow h depth path
        else pure (.ok (if path.endsWith SourceUnit.extension then [path] else []))
      match here with
      | .error e => return .error e
      | .ok here =>
        match ← each depth dir es with
        | .error e => return .error e
        | .ok rest => return .ok (here ++ rest)

def searchDepth : Nat := 4096

/-- The unit files that arguments mean: a directory means those below it. -/
def expandArgs (h : Host m) : List Text → m (Except PathError (List Text))
  | [] => return .ok []
  | arg :: args => do
    match ← h.stat arg with
    | .error e => return .error e
    | .ok isDir =>
      let here ← if isDir then filesBelow h searchDepth arg else pure (.ok [Path.clean arg])
      match here with
      | .error e => return .error e
      | .ok here =>
        match ← expandArgs h args with
        | .error e => return .error e
        | .ok rest => return .ok (here ++ rest)

/-- The unit files that arguments mean, each once and in order. -/
def listUnits (h : Host m) (args : List Text) : m (Except PathError (List Text)) := do
  match ← expandArgs h args with
  | .error e => return .error e
  | .ok paths => return .ok (paths.eraseDups.mergeSort Text.le)

/-! ### Reading units -/

inductive LoadError
  | path (e : PathError)
  | content (path : Text) (e : SourceUnit.DecodeError)
deriving DecidableEq

def LoadError.message : LoadError → Text
  | .path e => e.message
  | .content file e =>
    match e.message with
    | some reason => file ++ ": " ++ reason
    | none => file

def nameOf (path name : Text) : Text :=
  if name.isEmpty then (Path.base path).dropTail SourceUnit.extension else name

def load (h : Host m) (path : Text) : m (Except LoadError (SourceUnit × Digest)) := do
  match ← h.read path with
  | .error e => return .error (.path e)
  | .ok bs =>
    match SourceUnit.decode bs with
    | .error e => return .error (.content path e)
    | .ok u => return .ok ({ u with name := nameOf path u.name }, .ofContent bs)

def LoadError.fault (e : LoadError) : Fault :=
  match e with
  | .path _ => .error .loadError .zero ("failed to load unit: " ++ e.message)
  | .content .. => .error .decodeError .zero ("failed to decode unit: " ++ e.message)

def Verdict.ofLoadError (path : Text) (e : LoadError) : Verdict :=
  { Verdict.empty path with faults := [e.fault], isFatal := true }

/-! ### Checking many -/

namespace Checking

def checkFile (h : Host m) (c : Trace.Context) (o : Options) (path : Text) :
    Checking m Verdict := do
  if o.isCancelled then throw .cancelled
  match ← phase h path path "load" (act (load h path)) fun _ => .empty with
  | .error e => return .ofLoadError path e
  | .ok (u, digest) => checkUnit h c o path u digest

def checkFiles (h : Host m) (c : Trace.Context) (o : Options) :
    List Text → Checking m (List (Text × Verdict))
  | [] => return []
  | path :: paths => do
    let v ← checkFile h c o path
    return (path, v) :: (← checkFiles h c o paths)

/-- Checks files in order; gives a verdict for each. -/
def checkUnits (h : Host m) (o : Options) (paths : List Text) :
    Checking m (List (Text × Verdict)) := do
  if paths.isEmpty then return []
  let (c, span) ← startSpan h .root .run "check"
  within h span do
    let vs ← checkFiles h c o paths
    return (vs, [("units", Text.ofNat paths.length)])

end Checking

structure Summary where
  units : Nat
  fatal : Nat
  cached : Nat
  errors : Nat
  warnings : Nat
deriving DecidableEq

def Summary.ofVerdicts (vs : List Verdict) : Summary :=
  let faults := vs.flatMap Verdict.faults
  ⟨vs.length, vs.countP Verdict.isFatal, vs.countP Verdict.isCached,
    faults.countP fun f => f.severity.isFatal .error,
    faults.countP fun f => f.severity == .warning⟩

end UnitCheck.Check
