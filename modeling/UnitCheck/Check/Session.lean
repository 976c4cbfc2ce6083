import UnitCheck.Check.Cache
import UnitCheck.Trace.Tracer

/-!
# Running checks

A session runs checks and observes them: it times the passes, traces what happens and notes when
each pass starts and ends. None of this changes a verdict. A check fails only if it is cancelled, if
the cache cannot be used or if its data breaks a promise; faults in the unit are no failures.
-/

namespace UnitCheck.Check

variable {m : Type → Type} [Monad m]

structure PhaseEvent where
  /-- The file of the unit, if it was read from one. -/
  path : Text
  unit : Text
  name : Text
  isEnd : Bool
deriving DecidableEq

structure Session where
  timer : Timer
  tracer : Trace.Tracer
  events : Array PhaseEvent
deriving Inhabited

namespace Session

def start (tracer : Trace.Tracer) : Session := ⟨.empty, tracer, #[]⟩

end Session

inductive Failure
  | abort (a : Abort)
  | cancelled
  | cacheLookup (unit : Text) (e : Cache.Error)
  | cacheStore (unit : Text) (e : PathError)
deriving DecidableEq

def Failure.message : Failure → Text
  | abort a => a.message.getD .empty
  | cancelled => "context canceled"
  | cacheLookup unit e => "cache lookup for " ++ unit ++ ": " ++ e.message
  | cacheStore unit e => "cache store for " ++ unit ++ ": " ++ e.message

abbrev Checking (m : Type → Type) := ExceptT Failure (StateT Session m)

structure Options where
  /-- The least severity that fails a unit. -/
  threshold : Severity
  /-- How many faults are shown; without a positive number all of them are. -/
  limit : Int
  /-- Whether verdicts show how long the passes took. -/
  showTimings : Bool
  cache : Option Cache
  isCancelled : Bool

namespace Checking

/-! ### Observing -/

def now (h : Host m) : Checking m Int := ExceptT.lift (StateT.lift h.now)

def act {α : Type} (a : m α) : Checking m α := ExceptT.lift (StateT.lift a)

def onTracer {α : Type} (f : Trace.Tracer → Trace.Tracer × α) : Checking m α :=
  modifyGet fun s =>
    let (t, a) := f s.tracer
    (a, { s with tracer := t })

/-- Starts a span; gives the place inside of it. -/
def startSpan (h : Host m) (c : Trace.Context) (scope : Trace.Scope) (name : Text) :
    Checking m (Trace.Context × Option Trace.OpenSpan) := do
  let t ← now h
  onTracer fun tracer => tracer.start c scope name t

def endSpan (h : Host m) (s : Option Trace.OpenSpan) (facts : List (Text × Text)) :
    Checking m Unit := do
  let t ← now h
  let s := s.map fun s => facts.foldl (fun s (k, v) => s.set k v) s
  onTracer fun tracer => (tracer.finish s .empty t, ())

/-- Ends a span behind a step, with what the step has to say; a step that fails says nothing. -/
def within {α : Type} (h : Host m) (s : Option Trace.OpenSpan)
    (step : Checking m (α × List (Text × Text))) : Checking m α :=
  tryCatch
    (do
      let (a, facts) ← step
      endSpan h s facts
      return a)
    fun e => do
      endSpan h s []
      throw e

def points (h : Host m) (s : Option Trace.OpenSpan) (name : Text) (details : List Text) :
    Checking m Unit := do
  let t ← now h
  onTracer fun tracer => (details.foldl (fun tracer d => tracer.point s name d t) tracer, ())

def note (e : PhaseEvent) : Checking m Unit := modify fun s => { s with events := s.events.push e }

def phase {α : Type} (h : Host m) (path unit name : Text) (run : Checking m α) (remark : α → Text) :
    Checking m α := do
  note ⟨path, unit, name, false⟩
  let t ← now h
  let i ← modifyGet fun s =>
    let (timer, i) := s.timer.start unit name t
    (i, { s with timer })
  let a ← run
  let t ← now h
  match i with
  | some i => modify fun s => { s with timer := s.timer.stop i (remark a) t }
  | none => pure ()
  note ⟨path, unit, name, true⟩
  return a

def pass {α : Type} (r : Except Abort α) : Checking m α :=
  match r with
  | .ok a => return a
  | .error e => throw (.abort e)

/-! ### The passes -/

/-- What is said about each declaration that the unit makes. -/
def declared (r : Resolution.Resolved) : List Text :=
  r.table.decls.items.toList.zipIdx.filterMap fun (d, i) =>
    if d.builtin then none
    else some (d.kind.toText ++ " " ++ r.tree.names.display d.name ++ " #" ++ Text.ofNat (i + 1))

def resolve (h : Host m) (c : Trace.Context) (tree : Syntax.Tree) :
    Checking m Resolution.Resolved := do
  let (c, span) ← startSpan h c .pass "resolve"
  let (_, collect) ← startSpan h c .pass "resolve.collect"
  let r ← pass (Resolution.resolve tree)
  points h span "declare" (declared r)
  endSpan h collect [("decls", Text.ofNat r.table.decls.size)]
  let (_, walk) ← startSpan h c .pass "resolve.walk"
  endSpan h walk []
  endSpan h span [("scopes", Text.ofNat r.table.size)]
  return r

def arrays (l : Lowering.Lowered) : List Text :=
  l.arrays.map fun (slot, n) =>
    ((l.module.local? slot).map Code.Local.name).getD .empty ++ " len=" ++ Text.ofNat n.toNat

def lower (h : Host m) (c : Trace.Context) (r : Resolution.Resolved) :
    Checking m Lowering.Lowered := do
  let (_, span) ← startSpan h c .pass "lower"
  let l ← pass (Lowering.lower r.tree r.table.decls)
  points h span "lower.array" (arrays l)
  endSpan h span [("exprs", Text.ofNat l.module.counters.values),
    ("faults", Text.ofNat l.faults.length)]
  return l

def infer (h : Host m) (c : Trace.Context) (l : Lowering.Lowered) :
    Checking m (Typing.Typed × Code.Module) := do
  let (_, span) ← startSpan h c .pass "infer"
  let (typed, module) ← pass (Typing.infer l.module)
  endSpan h span [("vars", Text.ofNat typed.varCount),
    ("auto_copies", Text.ofNat typed.copies.length)]
  return (typed, module)

def runPasses (h : Host m) (c : Trace.Context) (path : Text) (u : SourceUnit) :
    Checking m Passes := do
  let resolved ← phase h path u.name "resolve" (resolve h c u.tree) fun r =>
    Text.ofNat r.table.decls.size ++ " decls"
  let lowered ← phase h path u.name "lower" (lower h c resolved) fun l =>
    Text.ofNat (l.module.values.size - 1) ++ " exprs"
  let (typed, module) ← phase h path u.name "infer" (infer h c lowered) fun (t, _) =>
    Text.ofNat t.copies.length ++ " auto-copies"
  return ⟨resolved, lowered, typed, module⟩

/-! ### Checking a unit -/

/-- The verdict that the cache holds. The zero digest names nothing. -/
def lookup (h : Host m) (o : Options) (u : SourceUnit) (digest : Digest) :
    Checking m (Option Verdict) := do
  match o.cache with
  | none => return none
  | some cache =>
    if digest.isZero then return none
    match ← act (cache.get h digest) with
    | .ok v => return v
    | .error e => throw (.cacheLookup u.name e)

def store (h : Host m) (o : Options) (u : SourceUnit) (digest : Digest) (v : Verdict) :
    Checking m Unit := do
  match o.cache with
  | none => return ()
  | some cache =>
    if digest.isZero then return ()
    match ← act (cache.put h digest v) with
    | .ok _ => return ()
    | .error e => throw (.cacheStore u.name e)

/-- What is shown of a verdict from the cache, and what there is to say about it. -/
def served (o : Options) (u : SourceUnit) (v : Verdict) : Verdict × List (Text × Text) :=
  ((v.fromCache u o.threshold).cap o.limit, [("cached", "true")])

def shown (o : Options) (v : Verdict) : Verdict :=
  let v := v.cap o.limit
  if o.showTimings then v.withTimings else v

/-- Runs the passes and stores their verdict; gives what is shown of it. -/
def conclude (h : Host m) (c : Trace.Context) (o : Options) (path : Text) (u : SourceUnit)
    (digest : Digest) : Checking m (Verdict × List (Text × Text)) := do
  let passes ← runPasses h c path u
  let timings := (← get).timer.unitReport u.name
  let v := Verdict.ofPasses u digest o.threshold passes timings
  store h o u digest v
  return (shown o v, [("faults", Text.ofNat v.faults.length)])

/-- The verdict on a unit and what there is to say about it. -/
def decide (h : Host m) (c : Trace.Context) (o : Options) (path : Text) (u : SourceUnit)
    (digest : Digest) : Checking m (Verdict × List (Text × Text)) := do
  match ← lookup h o u digest with
  | some v => return served o u v
  | none => conclude h c o path u digest

def checkUnit (h : Host m) (c : Trace.Context) (o : Options) (path : Text) (u : SourceUnit)
    (digest : Digest) : Checking m Verdict := do
  if o.isCancelled then throw .cancelled
  let (c, span) ← startSpan h { c with unit := u.name } .unit "check"
  within h span (decide h c o path u digest)

end Checking

end UnitCheck.Check
