import UnitCheck.Cli.Flag
import UnitCheck.Text.Case

/-!
# Commands

A program has commands, which may have commands of their own. `Command.resolve` finds the one that
arguments mean: it is named by the first arguments that are neither flags nor their values. `usage`
and `help` describe a command.
-/

namespace UnitCheck.Cli

inductive Arity
  | any
  | none
  | exactly (n : Nat)
  | atLeast (n : Nat)
deriving DecidableEq

structure Command (τ : Type) where
  name : Text
  /-- What is given behind the name. -/
  takes : Text := .empty
  /-- What it does, in a few words. -/
  summary : Text := .empty
  /-- What it does, at length. -/
  description : Text := .empty
  flags : List Flag := []
  arity : Arity := .any
  /-- What it does itself, if anything. -/
  task : Option τ := none
  /-- Whether it only explains the others. -/
  isHelp : Bool := false
  subs : List (Command τ) := []

/-- A command with the commands that lead to it, outermost first. -/
structure Located (τ : Type) where
  above : List (Command τ)
  command : Command τ

variable {τ : Type}

namespace Command

def isAvailable (c : Command τ) : Bool := !c.isHelp && (c.task.isSome || !c.subs.isEmpty)

end Command

namespace Located

def path (l : Located τ) : Text := Text.join " " ((l.above ++ [l.command]).map Command.name)

def globalFlags (l : Located τ) : List Flag := (l.above.head?.map Command.flags).getD []

def flags (l : Located τ) : List Flag := l.command.flags ++ l.globalFlags

end Located

/-! ### Finding commands -/

/-- Whether a word is a flag whose value is the next argument. What is not known counts as one. -/
def takesNext (flags : List Flag) (word : Text) : Bool :=
  let isSwitch := fun f? : Option Flag => (f?.map Flag.isSwitch).getD false
  if word.bytes.contains 61 then false
  else if word.startsWith "--" then !isSwitch (flags.find? (·.name == word.drop 2))
  else word.startsWith "-" && word.size == 2 &&
    !isSwitch (flags.find? (·.letter == (word.drop 1).bytes.head?))

/-- The arguments that are neither flags nor their values. A flag that waits for its value with only
one argument left ends them. -/
def plainWords (flags : List Flag) : Nat → List Text → List Text
  | 0, _ => []
  | _, [] => []
  | fuel + 1, word :: rest =>
    if word == "--" then []
    else if takesNext flags word then
      if rest.length ≤ 1 then [] else plainWords flags fuel (rest.drop 1)
    else if !word.isEmpty && !word.startsWith "-" then word :: plainWords flags fuel rest
    else plainWords flags fuel rest

/-- The arguments without the first one that is a given word and no flag's value. -/
def withoutWord (flags : List Flag) (w : Text) : Nat → List Text → List Text
  | 0, args => args
  | _, [] => []
  | fuel + 1, word :: rest =>
    if word == "--" then word :: rest
    else if takesNext flags word then
      match rest with
      | [] => [word]
      | v :: rest => word :: v :: withoutWord flags w fuel rest
    else if !word.startsWith "-" && word == w then rest
    else word :: withoutWord flags w fuel rest

namespace Located

/-- Goes on from a command to the one that the next word names. -/
def descend : Nat → Located τ → List Text → Located τ × List Text
  | 0, l, args => (l, args)
  | fuel + 1, l, args =>
    match plainWords l.flags args.length args with
    | [] => (l, args)
    | w :: _ =>
      match l.command.subs.find? (·.name == w) with
      | none => (l, args)
      | some c => descend fuel ⟨l.above ++ [l.command], c⟩ (withoutWord l.flags w args.length args)

end Located

/-- How many letters have to be changed, added or left out between two texts, given the distances
of the first text's heads to the second one so far. -/
def nextDistances (a : List UInt8) (c : UInt8) (row : List Nat) : List Nat :=
  match row with
  | [] => []
  | diag :: row => (diag + 1) :: go a row diag (diag + 1)
where
  go : List UInt8 → List Nat → Nat → Nat → List Nat
    | x :: xs, up :: row, diag, left =>
      let d := if x == c then diag else min diag (min up left) + 1
      d :: go xs row up d
    | _, _, _, _ => []

/-- How many letters have to be changed, added or left out to get from one text to the other. -/
def distance (a b : Text) : Nat :=
  ((b.bytes.foldl (fun row c => nextDistances a.bytes c row)
    (List.range (a.size + 1))).getLast?).getD 0

inductive UsageError
  | flag (e : FlagError)
  | unknownCommand (word path : Text) (similar : List Text)
  | tooFew (least given : Nat)
  | wrongCount (wanted given : Nat)
deriving DecidableEq

def UsageError.message : UsageError → Text
  | flag e => e.message
  | unknownCommand word path similar =>
    "unknown command " ++ word.quoted ++ " for " ++ path.quoted ++
      (if similar.isEmpty then (.empty : Text)
       else "\n\nDid you mean this?\n" ++ Text.concat (similar.map fun n => "\t" ++ n ++ "\n"))
  | tooFew least given =>
    "requires at least " ++ Text.ofNat least ++ " arg(s), only received " ++ Text.ofNat given
  | wrongCount wanted given =>
    "accepts " ++ Text.ofNat wanted ++ " arg(s), received " ++ Text.ofNat given

def similar (c : Command τ) (word : Text) : List Text :=
  (c.subs.filter fun s => s.isAvailable &&
    (distance word.lower s.name.lower ≤ 2 || s.name.lower.startsWith word.lower)).map Command.name

def Command.resolve (root : Command τ) (args : List Text) :
    Except UsageError (Located τ × List Text) :=
  let (l, rest) := Located.descend (args.length + 1) ⟨[], root⟩ args
  match l.above, plainWords l.flags rest.length rest with
  | [], w :: _ => .error (.unknownCommand w l.path (similar l.command w))
  | _, _ => .ok (l, rest)

def Arity.check (a : Arity) (path : Text) (args : List Text) : Except UsageError Unit :=
  match a, args with
  | .none, w :: _ => .error (.unknownCommand w path [])
  | .exactly n, args => if args.length = n then .ok () else .error (.wrongCount n args.length)
  | .atLeast n, args => if args.length < n then .error (.tooFew n args.length) else .ok ()
  | _, _ => .ok ()

/-! ### Describing commands -/

def helpFlag (name : Text) : Flag := ⟨"help", some 104, .switch false, "help for " ++ name⟩

def flagHead (f : Flag) : Text :=
  let name := match f.letter with
    | some c => "  -" ++ Text.ofByte c ++ ", --" ++ f.name
    | none => "      --" ++ f.name
  match f.default with
  | .switch _ => name
  | .text _ => name ++ " string"
  | .int _ => name ++ " int"

/-- The description of a flag, with its default unless that is empty. -/
def flagTail (f : Flag) : Text :=
  match f.default with
  | .text t => if t.isEmpty then f.usage else f.usage ++ " (default " ++ t.quoted ++ ")"
  | .int n => if n = 0 then f.usage else f.usage ++ " (default " ++ Text.ofInt n ++ ")"
  | .switch b => if b then f.usage ++ " (default true)" else f.usage

/-- Flags by name, one a line, descriptions below each other. -/
def flagTable (flags : List Flag) : Text :=
  let flags := flags.mergeSort fun a b => a.name.le b.name
  let width := (flags.map fun f => (flagHead f).size).foldl max 0
  Text.join "\n" (flags.map fun f => (flagHead f).padRight (width + 3) 32 ++ flagTail f)

def nameWidth (c : Command τ) : Nat := (c.subs.map fun s => s.name.size).foldl max 11

namespace Located

def useLine (l : Located τ) : Text :=
  let line := if l.command.takes.isEmpty then l.path else l.path ++ " " ++ l.command.takes
  if line.contains "[flags]" then line else line ++ " [flags]"

/-- A paragraph of the description, unless there is nothing to show. -/
def paragraph (title body : Text) : Text :=
  if body.isEmpty then .empty else "\n\n" ++ title ++ "\n" ++ body

/-- The description of a command in short, with the flags given. -/
def usageWith (l : Located τ) (own : List Flag) : Text :=
  let c := l.command
  let subs := (c.subs.filter fun s => s.isAvailable || s.isHelp).mergeSort fun a b =>
    a.name.le b.name
  let hasSubs := c.subs.any Command.isAvailable
  "Usage:" ++ (if c.task.isSome then "\n  " ++ l.useLine else (.empty : Text)) ++
    (if hasSubs then "\n  " ++ l.path ++ " [command]" else (.empty : Text)) ++
    (if hasSubs then "\n\nAvailable Commands:" ++ Text.concat (subs.map fun s =>
        "\n  " ++ s.name.padRight (nameWidth c) 32 ++ " " ++ s.summary)
      else (.empty : Text)) ++
    paragraph "Flags:" (flagTable own) ++ paragraph "Global Flags:" (flagTable l.globalFlags) ++
    (if hasSubs then "\n\nUse \"" ++ l.path ++
        " [command] --help\" for more information about a command."
      else (.empty : Text)) ++ "\n"

/-- The flags of its own that a command has when it runs. -/
def ownFlags (l : Located τ) (version : Flag) : List Flag :=
  l.command.flags ++ [helpFlag l.command.name] ++ (if l.above.isEmpty then [version] else [])

def help (l : Located τ) (version : Flag) : Text :=
  let c := l.command
  let about := if c.description.isEmpty then c.summary else c.description
  (if about.isEmpty then about else about ++ "\n\n") ++ l.usageWith (l.ownFlags version)

end Located

end UnitCheck.Cli
