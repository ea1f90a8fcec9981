import QueueBench.Text.Blank
import QueueBench.Toml.Scanner
import QueueBench.Word

set_option autoImplicit false

namespace QueueBench.Toml.Scalar

/-- Whether every underscore has a digit on both sides, after a character that is a digit or not. -/
def underscoresFitAfter (isDigit : Char → Bool) : (afterDigit : Bool) → List Char → Bool
  | _, [] => true
  | afterDigit, c :: rest =>
    if c = '_' then afterDigit && rest.head?.any isDigit && underscoresFitAfter isDigit false rest
    else underscoresFitAfter isDigit (isDigit c) rest

def underscoresFit (isDigit : Char → Bool) (cs : List Char) : Bool :=
  underscoresFitAfter isDigit false cs

/-- The digits of a text in which nothing but digits and underscores stands, at least one. -/
def digitsOf? (isDigit : Char → Bool) (cs : List Char) : Option (List Char) :=
  let ds := cs.filter (· != '_')
  if !ds.isEmpty && ds.all isDigit then some ds else none

def isHexDigit (c : Char) : Bool := (Reader.hexValue? c).isSome

/-- An integer as a value, if 128 bits can hold it. -/
def ofInt? (i : Int) : Option Value :=
  if Word.holdsSigned 127 i ∨ Word.holds 128 i then some (.integer i) else none

/-- An integer in a base other than ten, after its two leading characters. It may lack digits, and
then denotes nothing. -/
def based (base : Nat) (isDigit : Char → Bool) (cs : List Char) : Except Fault Value :=
  if cs.all (fun c => isDigit c || c == '_') && underscoresFit isDigit cs then
    let value? := do
      let values ← (← digitsOf? isDigit cs).mapM Reader.hexValue?
      ofInt? (Decimal.readUpTo (Word.bound 128) base 0 values : Nat)
    .ok (value?.getD (.notNumber (String.ofList cs)))
  else .error .number

/-- A decimal integer after its sign. A leading zero stands alone. Beyond the first underscore other
characters may stand, and then it denotes nothing. -/
def integer (minus : Bool) (cs : List Char) : Except Fault Value :=
  let leadingZero := match cs with
    | '0' :: _ :: _ => true
    | _ => false
  if cs.isEmpty || leadingZero || !underscoresFit isHexDigit cs then .error .number
  else
    let value? := do
      let n ← Decimal.natBelow? (Word.bound 128) (← digitsOf? Char.isDigit cs)
      ofInt? (Decimal.signed minus n)
    .ok (value?.getD (.notNumber (String.ofList cs)))

/-- The parts of a double after its sign: a whole part without a leading zero, and a fraction or an
exponent or both. -/
def numeral? (minus : Bool) (cs : List Char) : Option Decimal.Numeral := do
  let isMark := fun c => c == 'e' || c == 'E'
  let (whole, places) := Text.splitFirst '.' (cs.takeWhile fun c => !isMark c)
  let digits ← digitsOf? Char.isDigit whole
  if whole.head? = some '0' ∧ 1 < digits.length then none
  let places ← match places with
    | none => some []
    | some cs => digitsOf? Char.isDigit cs
  let exponent ← match (cs.dropWhile fun c => !isMark c).tail? with
    | none => some 0
    | some cs => do
      let (minus, cs) := Decimal.splitSign cs
      some (Decimal.exponentOf minus (← digitsOf? Char.isDigit cs))
  return Decimal.Numeral.ofRun minus (digits ++ places) (exponent - (places.length : Int))

/-- A double after its sign. One that is too large denotes nothing. -/
def double (minus : Bool) (cs : List Char) : Except Fault Value :=
  match numeral? minus cs with
  | none => .error .number
  | some n =>
    if underscoresFit Char.isDigit cs then
      .ok (if n.toDouble.isFinite then .double n.toDouble else .notNumber (String.ofList cs))
    else .error .number

def infinity (minus : Bool) : Float :=
  Float.ofBits (if minus then 0xFFF0000000000000 else 0x7FF0000000000000)

/-- A number of exactly so many digits, within limits. -/
def field? (digits low high : Nat) (cs : List Char) : Option Nat := do
  if cs.length = digits ∧ cs.all Char.isDigit then
    let n := Decimal.ofDigits cs
    if low ≤ n ∧ n ≤ high then some n else none
  else none

def daysIn (year month : Nat) : Nat :=
  if month = 2 then
    if year % 4 = 0 ∧ (year % 100 ≠ 0 ∨ year % 400 = 0) then 29 else 28
  else if month = 4 ∨ month = 6 ∨ month = 9 ∨ month = 11 then 30
  else 31

def isDate (cs : List Char) : Bool :=
  match Text.cut (· == '-') cs with
  | [year, month, day] =>
    match field? 4 0 9999 year, field? 2 1 12 month with
    | some y, some m => (field? 2 1 (daysIn y m) day).isSome
    | _, _ => false
  | _ => false

def isSeconds (cs : List Char) : Bool :=
  match Text.splitFirst '.' cs with
  | (seconds, none) => (field? 2 0 60 seconds).isSome
  | (seconds, some places) =>
    (field? 2 0 60 seconds).isSome && !places.isEmpty && places.all Char.isDigit

def isTime (cs : List Char) : Bool :=
  match Text.cut (· == ':') cs with
  | [hour, minute] => (field? 2 0 23 hour).isSome && (field? 2 0 59 minute).isSome
  | [hour, minute, seconds] =>
    (field? 2 0 23 hour).isSome && (field? 2 0 59 minute).isSome && isSeconds seconds
  | _ => false

def isOffsetTime (cs : List Char) : Bool :=
  match cs.getLast? with
  | some 'Z' => isTime cs.dropLast
  | some 'z' => isTime cs.dropLast
  | _ =>
    let time := cs.takeWhile fun c => c != '+' && c != '-'
    let offset := cs.dropWhile fun c => c != '+' && c != '-'
    match offset with
    | [] => isTime time
    | _ :: offset =>
      isTime time &&
        match Text.cut (· == ':') offset with
        | [hour, minute] => (field? 2 0 23 hour).isSome && (field? 2 0 59 minute).isSome
        | _ => false

/-- Whether a text is a date, a time, or both with a mark or a space between them. -/
def isDatetime (cs : List Char) : Bool :=
  isTime cs || isDate cs ||
    (isDate (cs.take 10) &&
      match cs.drop 10 with
      | c :: rest => (c == 'T' || c == 't' || c == ' ') && isOffsetTime rest
      | [] => false)

/-- A number after its sign, which is `some true` for a minus, or a date or time without one. The
first character after the leading digits tells which. -/
def numberOrDate (sign : Option Bool) (cs : List Char) : Except Fault Value :=
  let minus := sign == some true
  match cs.dropWhile Char.isDigit with
  | [] => integer minus cs
  | c :: rest =>
    if c = '-' ∨ c = ':' then
      if sign.isNone ∧ isDatetime cs then .ok (.datetime (String.ofList cs)) else .error .datetime
    else if (c :: rest).any (· == ' ') then .error .value
    else if (c :: rest).any (fun c => c == '.' || c == 'e' || c == 'E') then double minus cs
    else if c = '_' then integer minus cs
    else .error .value

def afterSign (sign : Option Bool) : List Char → Except Fault Value
  | ['i', 'n', 'f'] => .ok (.double (infinity (sign = some true)))
  | ['n', 'a', 'n'] => .ok (.double (Float.ofBits 0x7FF8000000000000))
  | cs => numberOrDate sign cs

/-- The value of a scalar without quotes. Words and numbers in a base other than ten have no
sign. -/
def value : List Char → Except Fault Value
  | ['t', 'r', 'u', 'e'] => .ok (.boolean true)
  | ['f', 'a', 'l', 's', 'e'] => .ok (.boolean false)
  | '0' :: 'x' :: rest => based 16 isHexDigit rest
  | '0' :: 'o' :: rest => based 8 (fun c => '0' ≤ c && c ≤ '7') rest
  | '0' :: 'b' :: rest => based 2 (fun c => c == '0' || c == '1') rest
  | '+' :: rest => afterSign (some false) rest
  | '-' :: rest => afterSign (some true) rest
  | cs => afterSign none cs

def delimiters : List Char :=
  [' ', '\t', '\n', '\r', '#', '=', ',', '[', ']', '\x7b', '\x7d']

def isPart (c : Char) : Bool := !delimiters.contains c

/-- The characters of a scalar and those after it, from what was read in reverse and the blanks since
then. Blanks belong to the scalar if more of it follows, which no quote begins. -/
def splitFrom (blanks read : List Char) : List Char → List Char × List Char
  | [] => (read.reverse, blanks.reverse)
  | c :: rest =>
    if Reader.isSpace c then splitFrom (c :: blanks) read rest
    else if isPart c && (blanks.isEmpty || (c != '"' && c != '\'')) then
      splitFrom [] (c :: (blanks ++ read)) rest
    else (read.reverse, blanks.reverse ++ c :: rest)

def reader : Reader Value := fun s => do
  let (text, rest) := splitFrom [] [] s
  .ok (← value text, rest)

end QueueBench.Toml.Scalar
