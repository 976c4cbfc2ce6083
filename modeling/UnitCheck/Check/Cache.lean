import UnitCheck.Check.Wire
import UnitCheck.Host.Basic

/-!
# The cache

Verdicts are kept in files that are named for the content of the unit and for the version of the
format, so that a verdict in another format is never found. Every entry says its version once more.
-/

namespace UnitCheck.Check

variable {m : Type → Type} [Monad m]

structure Cache where
  dir : Text
deriving DecidableEq

structure CacheEntry where
  version : UInt16
  verdict : Option Verdict

namespace Cache

def version : UInt16 := 1

def key (d : Digest) (version : UInt16) : Digest :=
  .ofContent (d.bytes ++ [(version >>> 8).toUInt8, version.toUInt8])

def unitsDir (c : Cache) : Text := Path.join [c.dir, "units"]

def entryName (d : Digest) : Text := (key d version).toText ++ ".mp"

def draftName (d : Digest) : Text := "tmp-" ++ (key d version).toText

def pathOf (c : Cache) (d : Digest) : Text := Path.join [c.unitsDir, entryName d]

def entryCodec : Codec CacheEntry := Codec.record ⟨0, none⟩ [
  Codec.field "schema" .uint16 (·.version) ({ · with version := · }),
  Codec.field "result" (.optional Verdict.codec) (·.verdict) ({ · with verdict := · })]

inductive Error
  | path (e : PathError)
  /-- The entry cannot be read. -/
  | unreadable
deriving DecidableEq

def Error.message : Error → Text
  | path e => e.message
  | unreadable => "decode cache entry"

def entryBytes (v : Verdict) : List UInt8 := (entryCodec.encode ⟨version, some v⟩).encode

/-- What the bytes of an entry say. An entry in another version counts as missing. -/
def readEntry (bs : List UInt8) : Except Error (Option Verdict) :=
  match (Pack.decode? bs).bind fun (p, _) => entryCodec.decode? p with
  | none => .error .unreadable
  | some e => .ok (if e.version = version then e.verdict else none)

def usualDir (h : Host m) (app : Text) : m (Except Text Text) := do
  let base ← h.envVar "XDG_CACHE_HOME"
  let home ← h.envVar "HOME"
  return if !base.isEmpty then .ok (Path.join [base, app])
    else if !home.isEmpty then .ok (Path.join [Path.join [home, ".cache"], app])
    else .error "$HOME is not defined"

/-- Opens the cache in a directory, or in the usual one if none is given. -/
def opened (h : Host m) (dir app : Text) : m (Except Text Cache) := do
  match ← (if dir.isEmpty then usualDir h app else pure (.ok dir)) with
  | .error e => return .error e
  | .ok dir =>
    match ← h.makeDirs dir with
    | .ok _ => return .ok ⟨dir⟩
    | .error e => return .error e.message

def get (h : Host m) (c : Cache) (d : Digest) : m (Except Error (Option Verdict)) := do
  match ← h.read (c.pathOf d) with
  | .error e => return if e.failure = .notFound then .ok none else .error (.path e)
  | .ok bs => return readEntry bs

/-- Runs actions one after the other as long as they succeed. -/
def andThen (a : m (Except PathError Unit)) (b : m (Except PathError Unit)) :
    m (Except PathError Unit) := do
  match ← a with
  | .ok _ => b
  | .error e => return .error e

/-- Stores a verdict. The entry is written beside its place and then moved there, so that nobody
reads half of it. -/
def put (h : Host m) (c : Cache) (d : Digest) (v : Verdict) : m (Except PathError Unit) :=
  let draft := Path.join [c.unitsDir, draftName d]
  andThen (h.makeDirs c.unitsDir)
    (andThen (h.write draft (entryBytes v)) (h.rename draft (c.pathOf d)))

/-- Removes all entries. They are moved away first, so that nobody sees some of them. -/
def dropAll (h : Host m) (c : Cache) : m (Except PathError Unit) := do
  let aside := c.unitsDir ++ ".old-" ++ Text.ofInt (← h.now)
  match ← h.rename c.unitsDir aside with
  | .ok _ => h.removeAll aside
  | .error e => return if e.failure = .notFound then .ok () else .error e

end Cache

end UnitCheck.Check
