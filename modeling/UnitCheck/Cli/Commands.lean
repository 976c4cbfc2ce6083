import UnitCheck.Cli.Command
import UnitCheck.Version

/-!
# The commands of the program

Units are checked by `check`, written out by `dump`; `clean` empties the cache.
-/

namespace UnitCheck.Cli

inductive Task
  | check
  | dump
  | clean
  | version
  | help
  /-- To write a script that completes commands in a shell. -/
  | completion (shell : Text)
deriving DecidableEq

/-- A flag with a text, a number or none at all. -/
def textFlag (name default usage : Text) : Flag := ⟨name, none, .text default, usage⟩
def intFlag (name usage : Text) : Flag := ⟨name, none, .int 0, usage⟩
def switchFlag (name usage : Text) : Flag := ⟨name, none, .switch false, usage⟩

def globalFlags : List Flag := [
  textFlag "config" .empty "path to soul.toml (default: search upwards from the working directory)",
  textFlag "color" "auto" "colorize output (auto|on|off)",
  switchFlag "quiet" "suppress non-essential output",
  switchFlag "timings" "show per-pass timing information",
  intFlag "max-faults" "maximum number of faults kept per unit (0 = config value)",
  textFlag "fatal" .empty "lowest severity that fails a unit (note|debug|warning|error)",
  textFlag "trace" .empty "trace output file (- for stderr)",
  textFlag "trace-level" .empty "trace level (off|error|phase|detail|debug)",
  textFlag "trace-mode" .empty "trace storage mode (stream|ring|both)",
  textFlag "trace-format" .empty "trace output format (text|ndjson)"]

def checkCommand : Command Task where
  name := "check"
  takes := "[flags] <unit.unit|directory>..."
  summary := "Check prepared units and report faults"
  description := "Run name resolution, HIR lowering and type inference over every unit and\n" ++
    "print the faults. Directories are searched recursively for *.unit files."
  flags := [textFlag "format" "pretty" "output format (pretty|short|golden|json)",
    switchFlag "with-notes" "include fault notes in output",
    switchFlag "fullpath" "emit absolute file paths in output",
    intFlag "jobs" "max units checked in parallel (0 = config value)",
    switchFlag "disk-cache" "reuse results from the persistent disk cache",
    textFlag "ui" "auto" "progress UI (auto|on|off)"]
  arity := .atLeast 1
  task := some .check

def dumpCommand : Command Task where
  name := "dump"
  takes := "[flags] <unit.unit>"
  summary := "Check one unit and write its HIR and typed responses"
  description := "Check one unit and write the result. The msgpack format is lossless and can\n" ++
    "be read back; json adds type labels for reading; hir prints the lowered\n" ++
    "module annotated with inferred types."
  flags := [textFlag "format" "hir" "output format (hir|json|msgpack)",
    { textFlag "output" .empty "write to file instead of stdout" with letter := some 111 },
    switchFlag "spans" "print statement spans in hir output"]
  arity := .exactly 1
  task := some .dump

def cleanCommand : Command Task where
  name := "clean"
  summary := "Remove cached check results"
  arity := .none
  task := some .clean

def versionCommand : Command Task where
  name := "version"
  summary := "Show soulc build information"
  flags := [textFlag "format" "pretty" "output format (pretty|json)"]
  arity := .none
  task := some .version

def helpCommand : Command Task where
  name := "help"
  takes := "[command]"
  summary := "Help about any command"
  description := "Help provides help for any command in the application.\n" ++
    "Simply type soulc help [path to command] for full details."
  task := some .help
  isHelp := true

def shellCommand (shell : Text) : Command Task where
  name := shell
  summary := "Generate the autocompletion script for " ++ shell
  flags := [switchFlag "no-descriptions" "disable completion descriptions"]
  arity := .none
  task := some (.completion shell)

def completionCommand : Command Task where
  name := "completion"
  summary := "Generate the autocompletion script for the specified shell"
  description := "Generate the autocompletion script for soulc for the specified shell.\n" ++
    "See each sub-command's help for details on how to use the generated script."
  arity := .none
  subs := ["bash", "fish", "powershell", "zsh"].map fun s : String => shellCommand s

def program : Command Task where
  name := Release.program
  summary := "Soul semantic checker"
  description := "soulc resolves names, lowers to HIR and infers types for prepared syntax units"
  flags := globalFlags
  subs := [checkCommand, dumpCommand, cleanCommand, versionCommand, completionCommand, helpCommand]

end UnitCheck.Cli
