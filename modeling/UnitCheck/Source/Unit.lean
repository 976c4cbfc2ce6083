import UnitCheck.Fault.Wire
import UnitCheck.Source.Files

/-!
# Units

A unit is what the checker works on at a time: a syntax tree, the faults that its parser reported
and, for showing faults, the texts that spans point into. Units are kept in files in packed form.
-/

namespace UnitCheck

structure UnitFile where
  path : Text
  content : Text
deriving DecidableEq

structure SourceUnit where
  name : Text
  files : List UnitFile
  tree : Syntax.Tree
  faults : List Fault

namespace SourceUnit

open Codec

def extension : Text := ".unit"

def sourceFiles (u : SourceUnit) : SourceFiles :=
  u.files.foldl (fun fs f => (fs.add f.path f.content).1) .empty

/-! ### The packed form -/

/-- What a unit file holds; the tree may be missing. -/
structure Parts where
  name : Text
  files : List UnitFile
  tree : Option Syntax.Tree
  faults : List Fault

def fileCodec : Codec UnitFile := record ⟨.empty, .empty⟩ [
  field "path" text (·.path) ({ · with path := · }),
  fieldUnless Text.isEmpty "content" bytes (·.content) ({ · with content := · })]

def partsCodec : Codec Parts := record ⟨.empty, [], none, []⟩ [
  field "name" text (·.name) ({ · with name := · }),
  fieldUnless List.isEmpty "files" (list fileCodec) (·.files) ({ · with files := · }),
  field "tree" (optional Syntax.Tree.codec) (·.tree) ({ · with tree := · }),
  fieldUnless List.isEmpty "faults" (list Fault.codec) (·.faults) ({ · with faults := · })]

def encode (u : SourceUnit) : List UInt8 :=
  (partsCodec.encode ⟨u.name, u.files, some u.tree, u.faults⟩).encode

inductive DecodeError
  | unreadable
  | noTree (name : Text)
deriving DecidableEq

def DecodeError.message : DecodeError → Option Text
  | unreadable => none
  | noTree name => some ("unit " ++ name.quoted ++ " has no tree")

def decode (bs : List UInt8) : Except DecodeError SourceUnit :=
  match (Pack.decode? bs).bind fun (p, _) => partsCodec.decode? p with
  | none => .error .unreadable
  | some p =>
    match p.tree with
    | none => .error (.noTree p.name)
    | some tree => .ok ⟨p.name, p.files, tree, p.faults⟩

end SourceUnit

end UnitCheck
