import QueueBench.Decimal.Numeral
import QueueBench.Toml.Value

set_option autoImplicit false

namespace QueueBench.Toml

/-- The characters of a text still to be read. -/
abbrev Chars := List Char

abbrev Reader := StateT Chars (Except Fault)

namespace Reader

variable {α : Type}

def fail (f : Fault) : Reader α := fun _ => .error f

def isSpace (c : Char) : Bool := c == ' ' || c == '\t'

/-- Control characters other than the tab, which stand nowhere but at line ends. -/
def isControl (c : Char) : Bool := (c.toNat < 0x20 && c != '\t') || c.toNat = 0x7F

/-- The characters from the next one that is neither space nor tab. -/
def dropSpace (s : Chars) : Chars := s.dropWhile isSpace

def blanks : Reader Unit := fun s => .ok ((), dropSpace s)

def afterLineEnd? : Chars → Option Chars
  | '\n' :: rest => some rest
  | '\r' :: '\n' :: rest => some rest
  | _ => none

/-- The characters from the end of the line on, after a number sign. -/
def comment (s : Chars) : Except Fault Chars :=
  let rest := s.dropWhile fun c => !isControl c
  match rest with
  | [] => .ok []
  | _ =>
    match afterLineEnd? rest with
    | some _ => .ok rest
    | none => .error .comment

/-- What may follow a complete expression: blanks, a comment, and the end of the line. -/
def endOfLine : Reader Unit := fun s =>
  let finish (s : Chars) : Except Fault (Unit × Chars) :=
    match s with
    | [] => .ok ((), [])
    | _ =>
      match afterLineEnd? s with
      | some rest => .ok ((), rest)
      | none => .error .lineEnd
  match dropSpace s with
  | '#' :: rest => do finish (← comment rest)
  | s => finish s

/-- Blanks, comments and line ends, as between the items of an array. -/
def gapFrom : (bound : Chars) → Reader Unit
  | [] => fun s => .ok ((), s)
  | _ :: bound => fun s =>
    match dropSpace s with
    | '#' :: rest => do gapFrom bound (← comment rest)
    | s =>
      match afterLineEnd? s with
      | some rest => gapFrom bound rest
      | none => .ok ((), s)

def gap : Reader Unit := fun s => gapFrom s s

def hexValue? (c : Char) : Option Nat :=
  if '0' ≤ c ∧ c ≤ '9' then some (c.toNat - 48)
  else if 'a' ≤ c ∧ c ≤ 'f' then some (c.toNat - 87)
  else if 'A' ≤ c ∧ c ≤ 'F' then some (c.toNat - 55)
  else none

/-- The character whose code point is given by a number of digits of base sixteen. -/
def codePoint (digits : Nat) : Reader Char := fun s =>
  let written := s.take digits
  match written.mapM hexValue? with
  | none => .error .escape
  | some values =>
    let n := values.foldl (fun n v => 16 * n + v) 0
    if values.length = digits ∧ n.isValidChar then .ok (Char.ofNat n, s.drop digits)
    else .error .escape

def escape : Reader Char
  | [] => .error .text
  | c :: rest =>
    match c with
    | 'b' => .ok ('\x08', rest)
    | 't' => .ok ('\t', rest)
    | 'n' => .ok ('\n', rest)
    | 'f' => .ok ('\x0c', rest)
    | 'r' => .ok ('\r', rest)
    | 'e' => .ok ('\x1b', rest)
    | '"' => .ok ('"', rest)
    | '\\' => .ok ('\\', rest)
    | 'x' => codePoint 2 rest
    | 'u' => codePoint 4 rest
    | 'U' => codePoint 8 rest
    | _ => .error .escape

/-- The inside of a string on one line, from what was read in reverse. -/
def basicFrom : (bound read : Chars) → Reader String
  | [], _ => fail .text
  | _ :: bound, read => fun s =>
    match s with
    | [] => .error .text
    | '"' :: rest => .ok (String.ofList read.reverse, rest)
    | '\\' :: rest => do
      let (c, rest) ← escape rest
      basicFrom bound (c :: read) rest
    | c :: rest => if isControl c then .error .text else basicFrom bound (c :: read) rest

def basic : Reader String := fun s => basicFrom s [] s

/-- A string without escapes on one line, after its opening quote. -/
def literal : Reader String := fun s =>
  let inside := s.takeWhile fun c => c != '\'' && !isControl c
  match s.dropWhile fun c => c != '\'' && !isControl c with
  | '\'' :: rest => .ok (String.ofList inside, rest)
  | _ => .error .text

/-- The closing of a string of many lines: three quotes, and up to two more that belong to the
string. -/
def closing? (quote : Char) (s : Chars) : Option (Chars × Chars) :=
  let count := (s.takeWhile (· == quote)).length
  if count < 3 then none
  else
    let extra := min (count - 3) 2
    some (List.replicate extra quote, s.drop (3 + extra))

/-- Drops blanks and line ends, as after a backslash at the end of a line. -/
def foldLines : Chars → Chars
  | '\r' :: '\n' :: rest => foldLines rest
  | c :: rest => if isSpace c || c == '\n' then foldLines rest else c :: rest
  | [] => []

def endsLine (s : Chars) : Bool := (afterLineEnd? (dropSpace s)).isSome

/-- The inside of a string of many lines, from what was read in reverse. Line ends stay as they are
written. -/
def longFrom (quote : Char) (escapes : Bool) : (bound read : Chars) → Reader String
  | [], _ => fail .text
  | _ :: bound, read => fun s =>
    match closing? quote s with
    | some (extra, rest) => .ok (String.ofList (read.reverse ++ extra), rest)
    | none =>
      match s with
      | [] => .error .text
      | c :: rest =>
        if escapes ∧ c = '\\' then
          if endsLine rest then longFrom quote escapes bound read (foldLines rest)
          else do
            let (c, rest) ← escape rest
            longFrom quote escapes bound (c :: read) rest
        else match c, rest with
          | '\n', rest => longFrom quote escapes bound ('\n' :: read) rest
          | '\r', '\n' :: rest => longFrom quote escapes bound ('\n' :: '\r' :: read) rest
          | c, rest =>
            if isControl c then .error .text else longFrom quote escapes bound (c :: read) rest

/-- A string of many lines after its three opening quotes; a line end right after them does not
count. -/
def long (quote : Char) (escapes : Bool) : Reader String := fun s =>
  let s := (afterLineEnd? s).getD s
  longFrom quote escapes s [] s

def isBare (c : Char) : Bool := c.isAlphanum || c == '_' || c == '-'

def simpleKey : Reader String
  | '"' :: rest => basic rest
  | '\'' :: rest => literal rest
  | s =>
    let name := s.takeWhile isBare
    if name.isEmpty then .error .key else .ok (String.ofList name, s.dropWhile isBare)

/-- The parts of a dotted key from those read so far in reverse, which are never empty. -/
def keyFrom : (bound : Chars) → (read : List String) → Reader (List String)
  | [], read => fun s => .ok (read, s)
  | _ :: bound, read => fun s =>
    match dropSpace s with
    | '.' :: rest => do
      let (part, rest) ← simpleKey (dropSpace rest)
      keyFrom bound (part :: read) rest
    | s => .ok (read, s)

def maxKeyParts : Nat := 80

/-- A dotted key: its path, and its last part. -/
def key : Reader (List String × String) := fun s => do
  let (first, rest) ← simpleKey (dropSpace s)
  let (parts, rest) ← keyFrom rest [first] rest
  match parts with
  | last :: path =>
    if maxKeyParts < parts.length then .error .tooDeep else .ok ((path.reverse, last), rest)
  | [] => .error .key

end Reader

end QueueBench.Toml
