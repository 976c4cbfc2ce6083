import UnitCheck.Text.Basic

/-!
# Paths

Slash-separated paths, handled as text: no file is looked at. A path is rooted or not and has a
list of parts; `clean` gives the shortest path that means the same.
-/

namespace UnitCheck.Path

def slash : UInt8 := 47

def isRooted (p : Text) : Bool := p.bytes.head? == some slash

/-- Removes empty parts and single dots and lets a double dot cancel the part before it. `out` is
the path so far, last part first; above the root there is nothing to go up to. -/
def resolveParts (rooted : Bool) : List Text → List Text → List Text
  | out, [] => out.reverse
  | out, p :: ps =>
    if p.isEmpty || p == "." then resolveParts rooted out ps
    else if p == ".." then
      match out with
      | [] => resolveParts rooted (if rooted then [] else [p]) ps
      | q :: qs => if q == ".." then resolveParts rooted (p :: out) ps
          else resolveParts rooted qs ps
    else resolveParts rooted (p :: out) ps

def parts (p : Text) : List Text := resolveParts (isRooted p) [] (p.splitOn slash)

def ofParts (rooted : Bool) (ps : List Text) : Text :=
  if rooted then "/" ++ Text.join "/" ps
  else if ps.isEmpty then "." else Text.join "/" ps

def clean (p : Text) : Text := ofParts (isRooted p) (parts p)

def join (ps : List Text) : Text :=
  match ps.filter (!·.isEmpty) with
  | [] => .empty
  | qs => clean (Text.join "/" qs)

/-- The last part: `.` for the empty path and `/` for the root. -/
def base (p : Text) : Text :=
  if p.isEmpty then "."
  else
    let stripped := (p.bytes.reverse.dropWhile (· == slash))
    if stripped.isEmpty then "/"
    else ⟨(stripped.takeWhile (· != slash)).reverse⟩

def dir (p : Text) : Text := clean ⟨(p.bytes.reverse.dropWhile (· != slash)).reverse⟩

/-- The path below `root` that leads to `p`; none if `p` does not lie below it. -/
def below? (root p : Text) : Option Text :=
  if isRooted (clean root) != isRooted (clean p) then none
  else
    let r := parts root
    let q := parts p
    if r.isPrefixOf q then some (ofParts false (q.drop r.length)) else none

def absolute (workingDir p : Text) : Text :=
  if isRooted p then clean p else join [workingDir, p]

end UnitCheck.Path
