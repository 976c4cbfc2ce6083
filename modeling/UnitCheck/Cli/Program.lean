import UnitCheck.Check.Output
import UnitCheck.Check.Units
import UnitCheck.Cli.Commands
import UnitCheck.Cli.Request
import UnitCheck.Code.Listing
import UnitCheck.Config
import UnitCheck.Fault.Golden
import UnitCheck.Fault.Report

/-!
# Running the program

`Program.run` does what arguments ask for. Everything outside is reached through a host, and what is
printed is collected, so a run is a function of its arguments and of what the host answers.
-/

namespace UnitCheck.Cli

variable {m : Type → Type} [Monad m]

structure Outcome where
  out : Text
  err : Text
  status : Nat
deriving DecidableEq

inductive Stop
  | error (message : Text)
  /-- Everything has been said, but a unit has failed. -/
  | failed
  | abort (a : Abort)
deriving DecidableEq

structure Printed where
  out : Text := .empty
  err : Text := .empty
deriving DecidableEq

abbrev Running (m : Type → Type) := ExceptT Stop (StateT Printed m)

namespace Program

def print (t : Text) : Running m Unit := modify fun p => { p with out := p.out ++ t }

def warn (t : Text) : Running m Unit := modify fun p => { p with err := p.err ++ t }

def act {α : Type} (a : m α) : Running m α := ExceptT.lift (StateT.lift a)

def orStop {α ε : Type} (words : ε → Text) : Except ε α → Running m α
  | .ok a => return a
  | .error e => throw (.error (words e))

def orAbort {α : Type} : Except Abort α → Running m α
  | .ok a => return a
  | .error a => throw (.abort a)

def stopIf (failed : Bool) : Running m Unit := if failed then throw .failed else return ()

/-! ### Flags -/

def invalidFlag (name value expected : Text) : Stop :=
  .error ("invalid --" ++ name ++ " value " ++ value.quoted ++ " (expected " ++ expected ++ ")")

def useColor (terminal : Bool) (a : Arguments) : Running m Bool :=
  let value := (a.text? "color").getD "auto"
  if value == "on" then return true
  else if value == "off" then return false
  else if value == "auto" || value.isEmpty then return terminal
  else throw (invalidFlag "color" value "auto|on|off")

/-- Progress is never shown, but the flag that asks for it is checked. -/
def checkUi (a : Arguments) : Running m Unit :=
  let value := (a.text? "ui").getD "auto"
  if ([.empty, "auto", "on", "off"] : List Text).contains value.trim.lower then return ()
  else throw (invalidFlag "ui" value "auto|on|off")

/-- The settings with what flags say about them. Naming a trace file switches tracing on. -/
def override (a : Arguments) (c : Config) : Config :=
  let c := (a.int? "max-faults").elim c fun n => { c with maxFaults := n }
  let c := (a.text? "fatal").elim c fun t => { c with fatal := t }
  let c := (a.text? "trace").elim c fun t =>
    { c with
      traceOutput := t
      traceLevel := if c.traceLevel == "off" then "phase" else c.traceLevel }
  let c := (a.text? "trace-level").elim c fun t => { c with traceLevel := t }
  let c := (a.text? "trace-mode").elim c fun t => { c with traceMode := t }
  (a.text? "trace-format").elim c fun t => { c with traceFormat := t }

/-- The settings of a run: those of the file that is named or found, then those of flags. -/
def settings (h : Host m) (a : Arguments) : Running m Config := do
  let named := (a.text? "config").getD .empty
  let file ← if named.isEmpty then do
      orStop Config.FindError.message (← act (Config.find h (← act h.workingDir)))
    else pure (some named)
  let c ← match file with
    | some f => orStop Config.LoadError.message (← act (Config.load h f))
    | none => pure {}
  let c := override a c
  orStop Config.Invalid.message c.validate
  return c

/-! ### Tracing -/

/-- A tracer, with the file that takes what it writes; without one, that is printed. -/
structure Tracing where
  tracer : Trace.Tracer
  file : Option Text

/-- Sets up tracing. A file to write to is created at once. -/
def startTracing (h : Host m) (c : Config) : Running m Tracing := do
  let s ← orStop ("invalid trace configuration: " ++ ·) c.tracing
  if s.level = .off then return ⟨.off, none⟩
  let tracer := Trace.Tracer.ofSettings s
  if !tracer.writes || s.output.isEmpty || s.output == "-" then return ⟨tracer, none⟩
  orStop (fun e : PathError => "failed to create tracer: failed to open trace output: " ++
    e.message)
    (← act (h.write s.output []))
  return ⟨tracer, some s.output⟩

def finishTracing (h : Host m) (t : Tracing) (tracer : Trace.Tracer) : Running m Unit := do
  let text ← orAbort tracer.stream
  match t.file with
  | some file => let _ ← act (h.write file text.bytes)
  | none => warn text

def runChecks {α : Type} (h : Host m) (t : Tracing) (checks : Check.Checking m α) :
    Running m (α × Check.Session) := do
  let (r, s) ← act (checks.run.run (.start t.tracer))
  finishTracing h t s.tracer
  match r with
  | .ok a => return (a, s)
  | .error (.abort a) => throw (.abort a)
  | .error e => throw (.error ("check failed: " ++ e.message))

def openCache (h : Host m) (c : Config) : Running m Check.Cache := do
  orStop ("failed to open disk cache: " ++ ·) (← act (Check.Cache.opened h c.cacheDir "soul"))

/-! ### Checking -/

inductive ReportForm
  | pretty
  | short
  | golden
  | json
deriving DecidableEq

def reportForm (a : Arguments) : Running m ReportForm :=
  let value := (a.text? "format").getD "pretty"
  if value == "pretty" then return .pretty
  else if value == "short" then return .short
  else if value == "golden" then return .golden
  else if value == "json" then return .json
  else throw (invalidFlag "format" value "pretty|short|golden|json")

/-- The report on a unit, without the one for tools. Nothing is said about a unit without faults. -/
def unitReport (form : ReportForm) (o : Render.Options) (v : Check.Verdict) : Text :=
  let bag := Bag.ofItems v.faults v.dropped
  let o := { o with unit := v.unit }
  if v.faults.isEmpty && v.dropped == 0 then .empty
  else match form with
    | .pretty => Render.pretty bag v.files { o with context := 2 }
    | .short => Render.short bag v.files { o with color := false, notes := false }
    | _ =>
      let text := Golden.report v.unit v.faults v.files o.notes
      if text.isEmpty then .empty else text ++ "\n"

def toolReport (o : Render.Options) (vs : List Check.Verdict) : Text :=
  (Json.arr (vs.map fun v => Report.ofBag (Bag.ofItems v.faults v.dropped) v.files
    { pathStyle := o.pathStyle, notes := o.notes, unit := v.unit,
      positions := true })).document true

def counted (n : Nat) (word : Text) : Text :=
  if n = 1 then "1 " ++ word else Text.ofNat n ++ " " ++ word ++ "s"

def summaryLine (s : Check.Summary) : Text :=
  let parts := [counted s.units "unit", counted s.errors "error", counted s.warnings "warning"] ++
    (if 0 < s.cached then [Text.ofNat s.cached ++ " cached"] else [])
  "checked " ++ Text.join ", " parts ++ ": " ++
    (if 0 < s.fatal then Text.ofNat s.fatal ++ " failed" else ("ok" : Text)) ++ "\n"

def timingLines (t : Timer) : Text :=
  Text.concat ((["load", "resolve", "lower", "infer"] : List Text).filterMap fun name =>
    (t.byPass.lookup name).map fun ns =>
      name.padRight 8 32 ++ " " ++ Decimal.millisFixed 1 ns ++ " ms\n")

def failureTraces (t : Trace.Tracer) (vs : List Check.Verdict) : Except Abort Text := do
  if !t.keeps then return .empty
  return Text.concat (← (vs.filter Check.Verdict.isFatal).mapM fun v => do
    return "== trace for " ++ v.unit ++ " ==\n" ++ (← t.dump v.unit .text))

def check (h : Host m) (terminal : Bool) (a : Arguments) : Running m Unit := do
  let form ← reportForm a
  let color ← useColor terminal a
  checkUi a
  let quiet := a.isOn "quiet"
  let timings := a.isOn "timings"
  let c ← settings h a
  let tracing ← startTracing h c
  let paths ← orStop PathError.message (← act (Check.listUnits h a.others.toList))
  if paths.isEmpty then throw (.error ("no " ++ SourceUnit.extension ++ " files found"))
  let cache ← if c.cacheEnabled || a.isOn "disk-cache" then some <$> openCache h c else pure none
  let (results, s) ← runChecks h tracing
    (Check.Checking.checkUnits h ⟨c.threshold, c.maxFaults, timings, cache, false⟩ paths)
  let vs := results.map Prod.snd
  let o : Render.Options :=
    { color := color
      pathStyle := if a.isOn "fullpath" then .asRecorded else .auto
      notes := a.isOn "with-notes" }
  print (if form = .json then toolReport o vs else Text.concat (vs.map (unitReport form o)))
  warn (← orAbort (failureTraces s.tracer vs))
  let sum := Check.Summary.ofVerdicts vs
  if !quiet && form != .json then
    warn (summaryLine sum)
    if timings then warn (timingLines s.timer)
  stopIf (0 < sum.fatal)

/-! ### Other tasks -/

/-- The forms in which a unit is written out: a listing, or a form of verdicts. -/
def dumpForm (a : Arguments) : Running m (Option Check.OutputFormat) :=
  let value := (a.text? "format").getD "hir"
  if value == "hir" then return none
  else match Check.OutputFormat.parse value with
    | .ok f => return some f
    | .error _ => throw (invalidFlag "format" value "hir|json|msgpack")

def listing (v : Check.Verdict) (spans : Bool) : Except Abort Text :=
  match v.code, v.typed with
  | some c, some t => Code.Listing.text ⟨c.module, fun i => t.valueTypes.lookup i, spans⟩
  | _, _ => .error .malformed

def dump (h : Host m) (a : Arguments) : Running m Unit := do
  let form ← dumpForm a
  let c ← settings h a
  let tracing ← startTracing h c
  let (u, digest) ← orStop Check.LoadError.message
    (← act (Check.load h ((a.others[0]?).getD .empty)))
  let (v, _) ← runChecks h tracing
    (Check.Checking.checkUnit h .root ⟨c.threshold, c.maxFaults, false, none, false⟩ .empty u
      digest)
  let content ← match form with
    | none => Text.bytes <$> orAbort (listing v (a.isOn "spans"))
    | some f => orStop id (v.write f true)
  let file := (a.text? "output").getD .empty
  if file.isEmpty then print ⟨content⟩
  else
    orStop (fun e : PathError => "failed to create " ++ file ++ ": " ++ e.message)
      (← act (h.write file content))
  stopIf v.isFatal

def clean (h : Host m) (a : Arguments) : Running m Unit := do
  let cache ← openCache h (← settings h a)
  orStop (fun e : PathError => "failed to clean " ++ cache.dir ++ ": " ++ e.message)
    (← act (cache.dropAll h))
  if !a.isOn "quiet" then print ("removed cached results in " ++ cache.dir ++ "\n")

def version (terminal : Bool) (a : Arguments) : Running m Unit := do
  let value := (a.text? "format").getD "pretty"
  if value.lower == "json" then print (Release.current.toJson.document true)
  else if value.lower == "pretty" then
    print (Release.current.line (← useColor terminal a) ++ "\n")
  else throw (invalidFlag "format" value "pretty|json")

def helpText (l : Located Task) : Text := l.help (versionFlag Cli.program.name)

def help (a : Arguments) : Running m Unit :=
  match Cli.program.resolve a.others.toList with
  | .ok (l, _) => print (helpText l)
  | .error _ => warn (unknownTopic Cli.program a.others.toList)

/-! ### The program -/

def perform (h : Host m) (terminal : Bool) : Request Task → Running m Unit
  | .help l => print (helpText l)
  | .version =>
    print (Release.program ++ " version " ++ Release.current.version ++ "\n")
  | .run .check a => check h terminal a
  | .run .dump a => dump h a
  | .run .clean a => clean h a
  | .run .version a => version terminal a
  | .run .help a => help a
  | .run (.completion shell) _ => throw (.error ("no completion script for " ++ shell))

def finish (p : Printed) : Except Stop Unit → Outcome
  | .ok _ => ⟨p.out, p.err, 0⟩
  | .error .failed => ⟨p.out, p.err, 1⟩
  | .error (.error message) => ⟨p.out, p.err ++ Release.program ++ ": " ++ message ++ "\n", 1⟩
  | .error (.abort a) => ⟨p.out, p.err ++ "panic: " ++ a.message.getD "malformed data" ++ "\n", 2⟩

/-- Runs the program. `terminal` says whether output goes to a terminal. -/
def run (h : Host m) (terminal : Bool) (args : List Text) : m Outcome := do
  match Request.parse Cli.program args with
  | .error e => return finish {} (.error (.error e.message))
  | .ok r =>
    let (result, printed) ← (perform h terminal r).run.run {}
    return finish printed result

end Program

end UnitCheck.Cli
