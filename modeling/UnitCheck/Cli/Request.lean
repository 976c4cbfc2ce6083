import UnitCheck.Cli.Command

/-!
# Requests

What arguments ask a program for. Help wins over everything else that a command is asked for, and a
command without a task of its own can only be explained.
-/

namespace UnitCheck.Cli

variable {τ : Type}

inductive Request (τ : Type)
  /-- To explain a command. -/
  | help (l : Located τ)
  /-- To tell the version of the program. -/
  | version
  | run (task : τ) (args : Arguments)

def versionFlag (name : Text) : Flag := ⟨"version", some 118, .switch false, "version for " ++ name⟩

def Request.parse (root : Command τ) (args : List Text) : Except UsageError (Request τ) := do
  let (l, rest) ← root.resolve args
  let flags := l.ownFlags (versionFlag root.name) ++ l.globalFlags
  let a ← (Arguments.parse flags rest).mapError .flag
  if a.isOn "help" then return .help l
  if l.above.isEmpty && a.isOn "version" then return .version
  let some task := l.command.task | return .help l
  l.command.arity.check l.path a.others.toList
  return .run task a

/-- A topic between backquotes, or between double quotes if it cannot stand between backquotes. -/
def shownTopic (t : Text) : Text :=
  let fits := fun r : Rune => !r.isStray && r.code != 0x60 && r.code != 0xFEFF && r.code != 0x7F &&
    (r.code == 9 || 32 ≤ r.code)
  if t.runes.all fits then "\x60" ++ t ++ "\x60" else t.quoted

def unknownTopic (root : Command τ) (words : List Text) : Text :=
  "Unknown help topic [" ++ Text.join " " (words.map shownTopic) ++ "]\n" ++
    (Located.mk [] root).usageWith root.flags

end UnitCheck.Cli
