import UnitCheck.Text.Basic

/-!
# What lies outside

Checking needs files, the time and a few facts about its surroundings. All of it is reached through
a `Host`, a record of actions in some monad, so the same code runs on real files and on a directory
that is only a value.

Actions on files fail with a `PathError`, which names the action and the path.
-/

namespace UnitCheck

inductive PathFailure
  | notFound
  | notDirectory
  | isDirectory
  | invalid
  /-- Some other reason, in the words of the host. -/
  | other (reason : Text)
deriving DecidableEq

def PathFailure.message : PathFailure → Text
  | notFound => "no such file or directory"
  | notDirectory => "not a directory"
  | isDirectory => "is a directory"
  | invalid => "invalid argument"
  | other reason => reason

structure PathError where
  action : Text
  path : Text
  failure : PathFailure
deriving DecidableEq

def PathError.message (e : PathError) : Text :=
  e.action ++ " " ++ e.path ++ ": " ++ e.failure.message

structure DirEntry where
  name : Text
  isDir : Bool
deriving DecidableEq

structure Host (m : Type → Type) where
  /-- The time in nanoseconds. -/
  now : m Int
  workingDir : m Text
  /-- A variable of the environment; empty if it is not set. -/
  envVar : Text → m Text
  /-- Whether a path leads to a directory. -/
  stat : Text → m (Except PathError Bool)
  /-- The entries of a directory, ordered by name. -/
  entries : Text → m (Except PathError (List DirEntry))
  read : Text → m (Except PathError (List UInt8))
  /-- Writes a file, which is created or replaced. -/
  write : Text → List UInt8 → m (Except PathError Unit)
  /-- Makes a directory and those around it, unless they exist. -/
  makeDirs : Text → m (Except PathError Unit)
  /-- Moves a file or directory to a path that is free or holds a file. -/
  rename : Text → Text → m (Except PathError Unit)
  /-- Removes a file, or a directory with everything in it; a missing one is fine. -/
  removeAll : Text → m (Except PathError Unit)

end UnitCheck
