import UnitCheck.Fault.Basic
import UnitCheck.Host.Basic
import UnitCheck.Text.Path
import UnitCheck.Toml.Reader
import UnitCheck.Trace.Tracer

/-!
# Settings

The settings of a run come from a file that is searched for from the working directory upwards. Each
setting has a default, and a file may not set anything else.
-/

namespace UnitCheck

variable {m : Type → Type} [Monad m]

/-- The settings of a run, as they are written. -/
structure Config where
  /-- The least severity that fails a unit. -/
  fatal : Text := "error"
  /-- How many faults of a unit are shown; zero for all. -/
  maxFaults : Int := 0
  /-- How many units may be checked at a time; zero for as many as the machine likes. -/
  jobs : Int := 0
  traceLevel : Text := "off"
  traceMode : Text := "stream"
  traceFormat : Text := "text"
  traceOutput : Text := "-"
  cacheEnabled : Bool := false
  /-- The directory of the cache; empty for the usual one. -/
  cacheDir : Text := .empty
deriving DecidableEq

namespace Config

open Toml

def fileName : Text := "soul.toml"

/-! ### Reading settings -/

abbrev Setting := Value → Config → Option Config

def textSetting (set : Text → Config → Config) : Setting
  | .text t, c => some (set t c)
  | _, _ => none

def intSetting (set : Int → Config → Config) : Setting
  | .int n, c => some (set n c)
  | _, _ => none

def boolSetting (set : Bool → Config → Config) : Setting
  | .bool b, c => some (set b c)
  | _, _ => none

def settings : List (Text × List (Text × Setting)) := [
  ("check", [
    ("fatal", textSetting fun x c => { c with fatal := x }),
    ("max_faults", intSetting fun x c => { c with maxFaults := x }),
    ("jobs", intSetting fun x c => { c with jobs := x })]),
  ("trace", [
    ("level", textSetting fun x c => { c with traceLevel := x }),
    ("mode", textSetting fun x c => { c with traceMode := x }),
    ("format", textSetting fun x c => { c with traceFormat := x }),
    ("output", textSetting fun x c => { c with traceOutput := x })]),
  ("cache", [
    ("enabled", boolSetting fun x c => { c with cacheEnabled := x }),
    ("dir", textSetting fun x c => { c with cacheDir := x })])]

/-- What a name stands for; letter case does not matter. -/
def named {α : Type} (known : List (Text × α)) (name : Text) : Option α :=
  (known.find? fun (k, _) => k == name.lower).map Prod.snd

/-- Applies the settings of a table. Names that mean nothing are passed over. -/
def applyTable (known : List (Text × Setting)) (es : Entries) (c : Config) : Option Config :=
  es.foldlM (fun c (k, v) =>
    match named known k with
    | some set => set v c
    | none => some c) c

def apply (d : Document) (c : Config) : Option Config :=
  d.entries.foldlM (fun c (k, v) =>
    match named settings k, v with
    | some known, .table es => applyTable known es c
    | some _, _ => none
    | none, _ => some c) c

def isKnown : Key → Bool
  | [table] => (named settings table).isSome
  | [table, name] => ((named settings table).bind (named · name)).isSome
  | _ => false

/-! ### Checking settings -/

inductive Invalid
  | fatal (reason : Text)
  | maxFaults (n : Int)
  | jobs (n : Int)
  | traceLevel (reason : Text)
  | traceMode (reason : Text)
  | traceFormat (reason : Text)
deriving DecidableEq

def Invalid.message : Invalid → Text
  | fatal reason => "[check].fatal: " ++ reason
  | maxFaults n => "[check].max_faults must not be negative, got " ++ Text.ofInt n
  | jobs n => "[check].jobs must not be negative, got " ++ Text.ofInt n
  | traceLevel reason => "[trace].level: " ++ reason
  | traceMode reason => "[trace].mode: " ++ reason
  | traceFormat reason => "[trace].format: " ++ reason

/-- Checks every setting that not all values fit. -/
def validate (c : Config) : Except Invalid Unit := do
  let _ ← (Severity.parse c.fatal).mapError .fatal
  if c.maxFaults < 0 then throw (.maxFaults c.maxFaults)
  if c.jobs < 0 then throw (.jobs c.jobs)
  let _ ← (Trace.Level.parse c.traceLevel).mapError .traceLevel
  let _ ← (Trace.Mode.parse c.traceMode).mapError .traceMode
  let _ ← (Trace.Format.parse c.traceFormat).mapError .traceFormat

def threshold (c : Config) : Severity := .ofSetting c.fatal

def tracing (c : Config) : Except Text Trace.Settings := do
  return ⟨← Trace.Level.parse c.traceLevel, ← Trace.Mode.parse c.traceMode,
    ← Trace.Format.parse c.traceFormat, c.traceOutput, 0⟩

/-! ### Files -/

inductive LoadError
  | path (file : Text) (e : PathError)
  /-- The file is no document, or a value has the wrong type. -/
  | unreadable (file : Text)
  | unknownKey (file : Text) (key : Key)
  | invalid (file : Text) (e : Invalid)
deriving DecidableEq

def LoadError.message : LoadError → Text
  | .path file e => file ++ ": failed to parse TOML: " ++ e.message
  | .unreadable file => file ++ ": failed to parse TOML: not a valid document"
  | .unknownKey file key => file ++ ": unknown key " ++ (Key.toText key).quoted
  | .invalid file e => file ++ ": " ++ e.message

def defines (d : Document) (key : Key) : Bool := (d.entries.find? key).isSome

/-- The settings of a document that was read from a file. Giving a directory for the cache switches
it on, and the directory is seen from where the file lies. -/
def ofDocument (file : Text) (d : Document) : Except LoadError Config := do
  let some c := apply d {} | throw (.unreadable file)
  match d.order.toList.find? (!isKnown ·) with
  | some key => throw (.unknownKey file key)
  | none => pure ()
  let c := if defines d ["cache", "dir"] && !defines d ["cache", "enabled"] then
      { c with cacheEnabled := true }
    else c
  let c := if !c.cacheDir.isEmpty && !Path.isRooted c.cacheDir then
      { c with cacheDir := Path.join [Path.dir file, c.cacheDir] }
    else c
  c.validate.mapError (.invalid file)
  return c

def load (h : Host m) (file : Text) : m (Except LoadError Config) := do
  match ← h.read file with
  | .error e => return .error (.path file e)
  | .ok bs =>
    match Document.parse? ⟨bs⟩ with
    | none => return .error (.unreadable file)
    | some d => return ofDocument file d

structure FindError where
  candidate : Text
  cause : PathError
deriving DecidableEq

def FindError.message (e : FindError) : Text :=
  "failed to stat " ++ e.candidate.quoted ++ ": " ++ e.cause.message

def findIn (h : Host m) : List Text → m (Except FindError (Option Text))
  | [] => return .ok none
  | dir :: dirs => do
    let candidate := Path.join [dir, fileName]
    match ← h.stat candidate with
    | .ok _ => return .ok (some candidate)
    | .error e => if e.failure = .notFound then findIn h dirs else return .error ⟨candidate, e⟩

def find (h : Host m) (start : Text) : m (Except FindError (Option Text)) := do
  let dir := Path.absolute (← h.workingDir) (if start.isEmpty then "." else start)
  let ps := Path.parts dir
  findIn h ((List.range (ps.length + 1)).reverse.map fun n => Path.ofParts true (ps.take n))

end Config

end UnitCheck
