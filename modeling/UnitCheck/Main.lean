import Std.Time
import UnitCheck.Cli.Program

/-!
# The command line

`Program.run` on real files: the host here only hands requests on to the system, and `main` prints
what the run leaves.
-/

namespace UnitCheck.RealFiles

def failureOf (e : IO.Error) : PathFailure :=
  match e with
  | .noFileOrDirectory .. => .notFound
  | .inappropriateType _ code _ => if code = 21 then .isDirectory else .notDirectory
  | .invalidArgument .. => .invalid
  | .permissionDenied .. => .other "permission denied"
  | e => .other (Text.ofString (toString e))

/-- Runs an action on a path, whose name has to be valid text. -/
def onPath {α : Type} (action : Text) (path : Text) (run : String → IO α) :
    IO (Except PathError α) := do
  match path.toString? with
  | none => return .error ⟨action, path, .invalid⟩
  | some name =>
    try
      return .ok (← run name)
    catch e => return .error ⟨action, path, failureOf e⟩

def isDirectory (name : String) : IO Bool := do
  return (← (← IO.FS.realPath name).metadata).type == .dir

def listDirectory (name : String) : IO (List DirEntry) := do
  let es ← (← (← IO.FS.realPath name).readDir).toList.mapM fun e => do
    return DirEntry.mk (Text.ofString e.fileName) ((← e.path.symlinkMetadata).type == .dir)
  return es.mergeSort fun a b => a.name.le b.name

def remove (name : String) : IO Unit := do
  let isDir ← try
      some <$> isDirectory name
    catch _ => pure none
  match isDir with
  | some true => IO.FS.removeDirAll name
  | some false => IO.FS.removeFile name
  | none => return ()

def realHost : Host IO where
  now := return (← Std.Time.Timestamp.now).toNanosecondsSinceUnixEpoch.val
  workingDir := return Text.ofString (← IO.currentDir).toString
  envVar name := do
    match name.toString? with
    | some name => return Text.ofString ((← IO.getEnv name).getD "")
    | none => return .empty
  stat p := onPath "stat" p isDirectory
  entries p := onPath "open" p listDirectory
  read p := onPath "open" p fun name => return (← IO.FS.readBinFile name).toList
  write p content := onPath "open" p fun name => IO.FS.writeBinFile name ⟨content.toArray⟩
  makeDirs p := onPath "mkdir" p fun name => IO.FS.createDirAll name
  rename source target := onPath "rename" source fun name =>
    IO.FS.rename name ((target.toString?).getD "")
  removeAll p := onPath "remove" p remove

def put (stream : IO.FS.Stream) (t : Text) : IO Unit := do
  stream.write ⟨t.bytes.toArray⟩
  stream.flush

end UnitCheck.RealFiles

def main (args : List String) : IO UInt32 := do
  let stdout ← IO.getStdout
  let outcome ← UnitCheck.Cli.Program.run UnitCheck.RealFiles.realHost (← stdout.isTty)
    (args.map UnitCheck.Text.ofString)
  UnitCheck.RealFiles.put stdout outcome.out
  UnitCheck.RealFiles.put (← IO.getStderr) outcome.err
  return outcome.status.toUInt32
