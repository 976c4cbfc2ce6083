import UnitCheck.Data.Json
import UnitCheck.Fault.Render

/-!
# Versions

How the program names itself.
-/

namespace UnitCheck

structure Release where
  version : Text
  /-- The revision that it was built from; empty if that is not known. -/
  commit : Text
  /-- When it was built; empty if that is not known. -/
  date : Text
deriving DecidableEq

namespace Release

def program : Text := "soulc"

def current : Release := ⟨"0.1.0-dev", .empty, .empty⟩

/-- The version with each of its three numbers in a colour of its own. A version that has not three
parts is shown as it is. -/
def colored (r : Release) (color : Bool) : Text :=
  let core : Text := ⟨r.version.bytes.takeWhile (· != 45)⟩
  let rest := (r.version.drop core.size).drop 1
  match core.splitOn 46 with
  | [major, minor, patch] =>
    Render.Style.yellow.paint color major ++ "." ++
      Render.Style.greenBold.paint color minor ++ "." ++
      Render.Style.blueBold.paint color patch ++
      (if rest.isEmpty then (.empty : Text) else "-" ++ rest)
  | _ => r.version

def line (r : Release) (color : Bool) : Text :=
  let version := if color then r.colored true else r.version
  let facts := (if r.commit.isEmpty then [] else ["commit " ++ r.commit]) ++
    (if r.date.isEmpty then [] else ["built " ++ r.date])
  program ++ " " ++ version ++
    (if facts.isEmpty then (.empty : Text) else " (" ++ Text.join ", " facts ++ ")")

def toJson (r : Release) : Json :=
  .object [Json.field "tool" (.str program), Json.field "version" (.str r.version.trim),
    Json.fieldIf (!r.commit.trim.isEmpty) "git_commit" (.str r.commit.trim),
    Json.fieldIf (!r.date.trim.isEmpty) "build_date" (.str r.date.trim)]

end Release

end UnitCheck
