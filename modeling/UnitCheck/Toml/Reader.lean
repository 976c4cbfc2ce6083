import UnitCheck.Toml.Scalar

/-!
# Reading TOML

`Document.parse?` reads a whole text. The text is UTF-8 with no control characters but tabs and line
ends, and a carriage return has to be part of one.

Reading goes through the characters from left to right. A value in braces defines its keys in the
document as it is read, so a key that is given twice is found in the same way everywhere.
-/

namespace UnitCheck.Toml

structure Cursor where
  rest : List Char
  doc : Document

abbrev Reading := StateT Cursor Option

namespace Reading

/-! ### Characters -/

def isBlank (c : Char) : Bool := c == ' ' || c == '\t'

def isLineEnd (c : Char) : Bool := c == '\n' || c == '\r'

def rest : Reading (List Char) := return (← get).rest

def setRest (cs : List Char) : Reading Unit := modify fun s => { s with rest := cs }

def peek? : Reading (Option Char) := return (← rest).head?

def skip (p : Char → Bool) : Reading Unit := do setRest ((← rest).dropWhile p)

def skipBlanks : Reading Unit := skip isBlank

def drop : Reading Unit := do setRest ((← rest).drop 1)

def expect (c : Char) : Reading Unit := do
  if (← peek?) == some c then drop else failure

def takeWhile (p : Char → Bool) : Reading (List Char) := do
  let cs ← rest
  setRest (cs.dropWhile p)
  return cs.takeWhile p

def textOf (cs : List Char) : Text := Text.ofString (String.ofList cs)

def skipLines : Nat → Reading Unit
  | 0 => failure
  | fuel + 1 => do
    skip fun c => isBlank c || isLineEnd c
    if (← peek?) == some '#' then
      skip (!isLineEnd ·)
      skipLines fuel

/-! ### The document -/

def onDoc (f : Document → Option Document) : Reading Unit := do
  let s ← get
  match f s.doc with
  | some doc => set { s with doc }
  | none => failure

/-! ### Strings -/

def scalar? (ds : List Char) : Option Char := do
  let n ← ds.foldlM (fun n c => do
    let d ← if c.toNat < 128 then Hex.value? (UInt8.ofNat c.toNat) else none
    some (n * 16 + d)) 0
  if n.isValidChar then some (Char.ofNat n) else none

/-- The character behind a backslash and what follows. -/
def escape? : List Char → Option (Char × List Char)
  | 'b' :: r => some ('\x08', r)
  | 't' :: r => some ('\t', r)
  | 'n' :: r => some ('\n', r)
  | 'f' :: r => some ('\x0c', r)
  | 'r' :: r => some ('\r', r)
  | '"' :: r => some ('"', r)
  | '\\' :: r => some ('\\', r)
  | 'u' :: r => if r.length < 4 then none else (scalar? (r.take 4)).map fun c => (c, r.drop 4)
  | 'U' :: r => if r.length < 8 then none else (scalar? (r.take 8)).map fun c => (c, r.drop 8)
  | _ => none

/-- The rest of a string on one line, behind what has been read of it, newest first. -/
def line : Nat → List Char → List Char → Option (List Char × List Char)
  | 0, _, _ => none
  | fuel + 1, done, cs =>
    match cs with
    | '"' :: r => some (done.reverse, r)
    | '\\' :: r =>
      match escape? r with
      | some (c, r) => line fuel (c :: done) r
      | none => none
    | c :: r => if isLineEnd c then none else line fuel (c :: done) r
    | [] => none

/-- Quotes that end a string of several lines: three of them, with up to two more that belong to the
string. Gives how many belong to it and what follows. -/
def closing (q : Char) (cs : List Char) : Option (Option (Nat × List Char)) :=
  let n := (cs.takeWhile (· == q)).length
  if n < 3 then some none
  else if n < 6 then some (some (n - 3, cs.drop n))
  else none

/-- The rest of a string of several lines. A backslash at the end of a line drops the blanks and
line ends that follow. -/
def lines : Nat → List Char → List Char → Option (List Char × List Char)
  | 0, _, _ => none
  | fuel + 1, done, cs =>
    match closing '"' cs with
    | none => none
    | some (some (n, r)) => some (done.reverse ++ List.replicate n '"', r)
    | some none =>
      match cs with
      | '\\' :: r =>
        let white := r.takeWhile fun c => isBlank c || isLineEnd c
        if white.any (· == '\n') then lines fuel done (r.drop white.length)
        else
          match escape? r with
          | some (c, r) => lines fuel (c :: done) r
          | none => none
      | c :: r => lines fuel (c :: done) r
      | [] => none

def rawLines : Nat → List Char → List Char → Option (List Char × List Char)
  | 0, _, _ => none
  | fuel + 1, done, cs =>
    match closing '\'' cs with
    | none => none
    | some (some (n, r)) => some (done.reverse ++ List.replicate n '\'', r)
    | some none =>
      match cs with
      | c :: r => rawLines fuel (c :: done) r
      | [] => none

/-- A line end at the start of a string of several lines does not count. -/
def dropFirstLineEnd : List Char → List Char
  | '\n' :: r => r
  | '\r' :: '\n' :: r => r
  | cs => cs

/-- A string on one line without escapes, up to its closing quote. -/
def rawLine (cs : List Char) : Option (List Char × List Char) :=
  let (body, r) := cs.span fun c => c != '\'' && !isLineEnd c
  match r with
  | '\'' :: r => some (body, r)
  | _ => none

def scan (f : List Char → Option (List Char × List Char)) : Reading Text := do
  match f (← rest) with
  | some (cs, r) =>
    setRest r
    return textOf cs
  | none => failure

/-! ### Keys -/

def isBareChar (c : Char) : Bool := c.isAlphanum || c == '_' || c == '-'

def keyPart : Reading Text := do
  skipBlanks
  match ← rest with
  | '"' :: r =>
    setRest r
    scan (line (r.length + 1) [])
  | '\'' :: r =>
    setRest r
    scan rawLine
  | _ => do
    let cs ← takeWhile isBareChar
    if cs.isEmpty then failure else return textOf cs

def key (stop : Char) : Nat → Reading Key
  | 0 => failure
  | fuel + 1 => do
    let part ← keyPart
    skipBlanks
    if (← peek?) == some '.' then
      drop
      return part :: (← key stop fuel)
    else
      expect stop
      return [part]

/-! ### Values -/

def isWordDigit (c : Char) : Bool := c.isDigit || c == '_'

def isFloatChar (c : Char) : Bool := isWordDigit c || ['.', '-', '+', 'e', 'E'].contains c

def isTimeChar (c : Char) : Bool :=
  c.isDigit || ['-', ':', 'T', 't', ' ', '.', 'Z', 'z', '+'].contains c

def isPointOrMark (c : Char) : Bool := c == '.' || c == 'e' || c == 'E'

/-- The rest of an integer or float in base ten, behind what has been read of it. -/
def decimal (front : List Char) : Reading Value := do
  let front := front ++ (← takeWhile isWordDigit)
  if ((← peek?).map isPointOrMark).getD false then
    let t := textOf (front ++ (← takeWhile isFloatChar))
    if Scalar.isFloat t then return .float else failure
  else
    match Scalar.int? (textOf front) with
    | some v => return v
    | none => failure

def digitsOf? (c : Char) : Option (Char → Bool) :=
  if c == 'b' then some fun c => c == '0' || c == '1'
  else if c == 'o' then some fun c => '0' ≤ c && c ≤ '7'
  else if c == 'x' then some fun c => c.isDigit || ('a' ≤ c && c ≤ 'f') || ('A' ≤ c && c ≤ 'F')
  else none

def numberOrTime : Reading Value := do
  let based := match ← rest with
    | '0' :: b :: d :: _ => (digitsOf? b).bind fun p => if p d then some p else none
    | _ => none
  match based with
  | some p =>
    let front := (← rest).take 2
    setRest ((← rest).drop 2)
    match Scalar.int? (textOf (front ++ (← takeWhile fun c => p c || c == '_'))) with
    | some v => return v
    | none => failure
  | none =>
    let front ← takeWhile Char.isDigit
    let isTime := front != ['0'] && ((← peek?) == some '-' || (← peek?) == some ':')
    if isTime then
      let cs := front ++ (← takeWhile isTimeChar)
      let t := textOf (cs.reverse.dropWhile (· == ' ')).reverse
      if Scalar.isTime t then return .time else failure
    else decimal front

def signed (sign : Char) : Reading Value := do
  match ← rest with
  | 'i' :: 'n' :: 'f' :: r | 'n' :: 'a' :: 'n' :: r =>
    setRest r
    return .float
  | c :: _ => if c.isDigit then decimal [sign] else failure
  | [] => failure

def word : Reading Value := do
  match ← rest with
  | 'i' :: 'n' :: 'f' :: r | 'n' :: 'a' :: 'n' :: r =>
    setRest r
    return .float
  | 't' :: 'r' :: 'u' :: 'e' :: r =>
    setRest r
    return .bool true
  | 'f' :: 'a' :: 'l' :: 's' :: 'e' :: r =>
    setRest r
    return .bool false
  | _ => failure

def string : Reading Value := do
  let fuel := (← rest).length + 1
  match ← rest with
  | '"' :: '"' :: '"' :: r =>
    setRest (dropFirstLineEnd r)
    return .text (← scan (lines fuel []))
  | '"' :: r =>
    setRest r
    return .text (← scan (line fuel []))
  | '\'' :: '\'' :: '\'' :: r =>
    setRest (dropFirstLineEnd r)
    return .text (← scan (rawLines fuel []))
  | '\'' :: r =>
    setRest r
    return .text (← scan rawLine)
  | _ => failure

mutual

/-- The value of a key in a table. Every step takes a character or goes into a value, so twice the
number of characters is enough fuel. -/
def value : Nat → Key → Text → Bool → Reading Value
  | 0, _, _, _ => failure
  | fuel + 1, table, k, isItem => do
    skipBlanks
    match ← peek? with
    | some '[' =>
      drop
      onDoc fun d => some (d.markList (table ++ [k]))
      return .list (← items fuel table k)
    | some '\x7b' =>
      drop
      let inner := table ++ [k]
      onDoc fun d => (d.imply inner).enter inner isItem
      members fuel inner true
      return .table ((((← get).doc.entries.find? inner).bind Value.inside?).getD [])
    | some '"' | some '\'' => string
    | some '+' =>
      drop
      signed '+'
    | some '-' =>
      drop
      signed '-'
    | some c => if c.isDigit then numberOrTime else word
    | none => failure

def items : Nat → Key → Text → Reading (List Value)
  | 0, _, _ => failure
  | fuel + 1, table, k => do
    skipLines fuel
    if (← peek?) == some ']' then
      drop
      return []
    let v ← value fuel table k true
    skipLines fuel
    if (← peek?) == some ',' then
      drop
      return v :: (← items fuel table k)
    else
      expect ']'
      return [v]

/-- The members of a table in braces up to its end. There is no comma behind the last one. -/
def members : Nat → Key → Bool → Reading Unit
  | 0, _, _ => failure
  | fuel + 1, table, mayEnd => do
    skipBlanks
    if mayEnd && (← peek?) == some '\x7d' then drop
    else
      assignment fuel table
      skipBlanks
      if (← peek?) == some ',' then
        drop
        members fuel table false
      else expect '\x7d'

def assignment : Nat → Key → Reading Unit
  | 0, _ => failure
  | fuel + 1, table => do
    let parts ← key '=' fuel
    let inner := table ++ parts.dropLast
    let last := parts.getLastD .empty
    onDoc fun d => (d.enterParts table parts.dropLast).map (·.write (inner ++ [last]))
    let v ← value fuel inner last false
    onDoc (·.define inner last v)

end

/-! ### Lines -/

/-- A table header; the text behind it belongs to the table. -/
def header (fuel : Nat) : Reading Key := do
  drop
  let isOneOf := (← peek?) == some '['
  if isOneOf then drop
  let k ← key ']' fuel
  if isOneOf then expect ']'
  onDoc fun d => (d.enter k isOneOf).map (·.write k)
  return k

def lineEnd : Reading Unit := do
  skipBlanks
  match ← peek? with
  | some '#' => skip (!isLineEnd ·)
  | some c => if isLineEnd c then drop else failure
  | none => pure ()

def body : Nat → Key → Reading Unit
  | 0, _ => failure
  | fuel + 1, table => do
    skipLines fuel
    match ← peek? with
    | none => pure ()
    | some '[' =>
      let k ← header fuel
      lineEnd
      body fuel k
    | some _ =>
      assignment fuel table
      lineEnd
      body fuel table

end Reading

/-- Whether a text has no control characters beyond those that are allowed. -/
def isPlain : List Char → Bool
  | [] => true
  | '\r' :: '\n' :: r => isPlain r
  | c :: r => (c == '\t' || c == '\n' || (0x20 ≤ c.toNat && c.toNat != 0x7F)) && isPlain r

def withoutMark (t : Text) : Text :=
  match t.bytes with
  | 0xFF :: 0xFE :: r | 0xFE :: 0xFF :: r | 0xEF :: 0xBB :: 0xBF :: r => ⟨r⟩
  | bs => ⟨bs⟩

def Document.parse? (t : Text) : Option Document := do
  let cs := (← (withoutMark t).toString?).toList
  if !isPlain cs then none
  let ((), s) ← (Reading.body (4 * cs.length + 4) []).run ⟨cs, .empty⟩
  return s.doc

end UnitCheck.Toml
