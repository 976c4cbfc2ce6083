import UnitCheck.Ty.Table

/-!
# Labels of types

How messages and listings write a type. Deep types are cut short.
-/

namespace UnitCheck.TypeTable

/-- Types are written to this depth; what lies deeper is left out. -/
def labelDepth : Nat := 7

def integerLabel (width : UInt8) (any short : String) : Text :=
  if width = 0 then any else short ++ Text.ofNat width.toNat

/-- The label of a type, with `depth` levels left. -/
def labelAt (t : TypeTable) : Nat → TypeId → Text
  | 0, i => if i.index = 0 then "?" else "..."
  | depth + 1, i =>
    match t.lookup? i with
    | none => "?"
    | some ty =>
      let bare : Text := match ty.shape with
        | .plain .error => "<error>"
        | .plain .unit => "()"
        | .plain k =>
          if k.isUntyped then "\x7b" ++ k.toText ++ "\x7d" else k.toText
        | .int w => integerLabel w "int" "i"
        | .uint w => integerLabel w "uint" "u"
        | .float w => "f" ++ Text.ofNat w.toNat
        | .pointer e => "*" ++ labelAt t depth e
        | .reference true e => "&mut " ++ labelAt t depth e
        | .reference false e => "&" ++ labelAt t depth e
        | .optional e => labelAt t depth e ++ "?"
        | .array storage e n =>
          let elem := labelAt t depth e
          if storage = .slice ∨ n = dynamicLength then elem ++ "[]"
          else
            let sized := elem ++ "[" ++ Text.ofNat n.toNat ++ "]"
            if storage = .heap then "heap " ++ sized else sized
        | .named _ slot =>
          if slot = 0 then "<named>" else ((t.names[slot]?).map NamedType.name).getD "<named>"
        | .fn slot =>
          match if slot = 0 then none else t.signatures[slot]? with
          | none => "fn(?)"
          | some s =>
            "fn(" ++ Text.join ", " (s.params.map (labelAt t depth)) ++ ") " ++
              labelAt t depth s.result
        | .var v => "'t" ++ Text.ofNat v.index
      if ty.modifier.toText.isEmpty then bare else ty.modifier.toText ++ " " ++ bare

def label (t : TypeTable) (i : TypeId) : Text := t.labelAt labelDepth i

end UnitCheck.TypeTable
