import UnitCheck.Text.Number

/-!
# Flags

A flag is given as `--name=value` or `--name value`, or by its letter as `-nvalue` or `-n value`. A
switch needs no value, so the letters of several switches may share a dash. Flags and other
arguments may come in any order; behind `--` there are no flags.
-/

namespace UnitCheck.Cli

inductive FlagValue
  | switch (isOn : Bool)
  | text (t : Text)
  | int (n : Int)
deriving DecidableEq

structure Flag where
  name : Text
  /-- The letter that stands for the name. -/
  letter : Option UInt8 := none
  /-- The value without the flag, which fixes the type too. -/
  default : FlagValue
  usage : Text
deriving DecidableEq

namespace Flag

def isSwitch (f : Flag) : Bool :=
  match f.default with
  | .switch _ => true
  | _ => false

def shown (f : Flag) : Text :=
  match f.letter with
  | some c => "-" ++ Text.ofByte c ++ ", --" ++ f.name
  | none => "--" ++ f.name

def read (f : Flag) (t : Text) : Except Text FlagValue :=
  match f.default with
  | .text _ => .ok (.text t)
  | .int _ =>
    match t.toInt64 with
    | .ok n => .ok (.int n)
    | .error e => .error ("strconv.ParseInt: parsing " ++ t.quoted ++ ": " ++ e.message)
  | .switch _ =>
    match t.toBool? with
    | some b => .ok (.switch b)
    | none =>
      .error ("strconv.ParseBool: parsing " ++ t.quoted ++ ": " ++ NumberError.invalid.message)

end Flag

inductive FlagError
  | unknown (name : Text)
  | unknownLetter (c : UInt8) (letters : Text)
  | needsValue (name : Text)
  | letterNeedsValue (c : UInt8) (letters : Text)
  | badForm (word : Text)
  | badValue (value : Text) (flag : Flag) (reason : Text)
deriving DecidableEq

/-- A letter between single quotes. Of one beyond ASCII only the first byte is looked at. -/
def quotedLetter (c : UInt8) : Text :=
  let n := ((Text.ofCode c.toNat).bytes.headD c).toNat
  if n = 39 then "'\\''"
  else if n = 34 then "'\"'"
  else "'" ++ ⟨Quoted.rune ⟨n, (Text.ofCode n).bytes⟩⟩ ++ "'"

def FlagError.message : FlagError → Text
  | unknown name => "unknown flag: --" ++ name
  | unknownLetter c letters => "unknown shorthand flag: " ++ quotedLetter c ++ " in -" ++ letters
  | needsValue name => "flag needs an argument: --" ++ name
  | letterNeedsValue c letters => "flag needs an argument: " ++ quotedLetter c ++ " in -" ++ letters
  | badForm word => "bad flag syntax: " ++ word
  | badValue value flag reason =>
    "invalid argument " ++ value.quoted ++ " for " ++ flag.shown.quoted ++ " flag: " ++ reason

structure Arguments where
  /-- Flags that were given, newest first. -/
  given : List (Text × FlagValue)
  /-- The other arguments, in order. -/
  others : Array Text

namespace Arguments

def empty : Arguments := ⟨[], #[]⟩

def value? (a : Arguments) (name : Text) : Option FlagValue := a.given.lookup name

def isOn (a : Arguments) (name : Text) : Bool := a.value? name == some (.switch true)

def text? (a : Arguments) (name : Text) : Option Text :=
  match a.value? name with
  | some (.text t) => some t
  | _ => none

def int? (a : Arguments) (name : Text) : Option Int :=
  match a.value? name with
  | some (.int n) => some n
  | _ => none

def set (a : Arguments) (f : Flag) (t : Text) : Except FlagError Arguments :=
  match f.read t with
  | .ok v => .ok { a with given := (f.name, v) :: a.given }
  | .error reason => .error (.badValue t f reason)

/-- Reads a flag by name; says whether the next argument was its value. -/
def long (flags : List Flag) (word : Text) (next : Option Text) (a : Arguments) :
    Except FlagError (Arguments × Bool) := do
  let body := word.drop 2
  if body.isEmpty || body.startsWith "-" || body.startsWith "=" then throw (.badForm word)
  let name : Text := ⟨body.bytes.takeWhile (· != 61)⟩
  let some f := flags.find? (·.name == name) | throw (.unknown name)
  if name.size < body.size then return (← a.set f (body.drop (name.size + 1)), false)
  else if f.isSwitch then return (← a.set f "true", false)
  else
    match next with
    | some v => return (← a.set f v, true)
    | none => throw (.needsValue name)

/-- Reads flags by their letters; says whether the next argument was the value of the last one. -/
def short (flags : List Flag) (next : Option Text) : List UInt8 → Arguments →
    Except FlagError (Arguments × Bool)
  | [], a => .ok (a, false)
  | c :: r, a => do
    let some f := flags.find? (·.letter == some c) | throw (.unknownLetter c ⟨c :: r⟩)
    match r with
    | 61 :: v :: vs => return (← a.set f ⟨v :: vs⟩, false)
    | _ =>
      if f.isSwitch then short flags next r (← a.set f "true")
      else if !r.isEmpty then return (← a.set f ⟨r⟩, false)
      else
        match next with
        | some v => return (← a.set f v, true)
        | none => throw (.letterNeedsValue c ⟨c :: r⟩)

/-- Sorts arguments out, behind those that have been already. Every step takes an argument. -/
def parseFrom (flags : List Flag) : Nat → List Text → Arguments → Except FlagError Arguments
  | _, [], a => .ok a
  | 0, _, a => .ok a
  | fuel + 1, word :: rest, a => do
    if !word.startsWith "-" || word.size == 1 then
      parseFrom flags fuel rest { a with others := a.others.push word }
    else if word == "--" then return { a with others := a.others ++ rest }
    else
      let (a, usedNext) ←
        if word.startsWith "--" then a.long flags word rest.head?
        else short flags rest.head? (word.bytes.drop 1) a
      parseFrom flags fuel (if usedNext then rest.drop 1 else rest) a

def parse (flags : List Flag) (args : List Text) : Except FlagError Arguments :=
  parseFrom flags args.length args empty

end Arguments

end UnitCheck.Cli
