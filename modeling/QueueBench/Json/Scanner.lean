import QueueBench.Decimal.Approximate
import QueueBench.Json.Problem
import QueueBench.Text.Utf8

set_option autoImplicit false

namespace QueueBench.Json

/-- The bytes of a text still to be read. -/
abbrev Bytes := List UInt8

/-- Reads something from the front of the bytes left. -/
abbrev Reader := StateT Bytes (Except Problem)

namespace Reader

variable {α : Type}

def fail (p : Problem) : Reader α := fun _ => .error p

/-- Stops with a departure from the shape asked for. -/
def reject (m : Document.Mismatch) : Reader α := fail (.mismatch m)

/-- The four blanks of JSON. -/
def isSpace (b : UInt8) : Bool := b = 0x20 || b = 0x0A || b = 0x09 || b = 0x0D

def isDigit (b : UInt8) : Bool := 0x30 ≤ b && b ≤ 0x39

/-- The bytes from the next one that is not blank. -/
def dropSpace (s : Bytes) : Bytes := s.dropWhile isSpace

/-- The next byte that is not blank, left in place. -/
def peek : Reader (Option UInt8) := fun s =>
  let s := dropSpace s
  .ok (s.head?, s)

def advance : Reader Unit := fun s => .ok ((), s.tail)

/-- The rest of a word whose first letter was read. -/
def word : Bytes → Reader Unit
  | [], s => .ok ((), s)
  | _ :: _, [] => .error (.ended .value)
  | c :: more, b :: rest => if b = c then word more rest else .error .expectedIdent

def restOfNull : Reader Unit := word [0x75, 0x6C, 0x6C]

def restOfTrue : Reader Unit := word [0x72, 0x75, 0x65]

def restOfFalse : Reader Unit := word [0x61, 0x6C, 0x73, 0x65]

def charsOfDigits (ds : Bytes) : List Char := ds.map fun b => Char.ofNat b.toNat

/-- The size of an exponent from which on further digits do not count; no text has so many digits
that they could matter. -/
def exponentBound : Nat := Word.bound 31

def sign : Bytes → Bool × Bytes
  | 0x2B :: rest => (false, rest)
  | 0x2D :: rest => (true, rest)
  | s => (false, s)

def exponent : Reader (Option Int)
  | [] => .ok (none, [])
  | mark :: rest =>
    if mark = 0x65 ∨ mark = 0x45 then
      let (minus, s) := sign rest
      let ds := s.takeWhile isDigit
      if ds.isEmpty then .error (if s.isEmpty then .ended .value else .invalidNumber)
      else
        let size := Decimal.ofDigitsUpTo exponentBound (charsOfDigits ds)
        .ok (some (Decimal.signed minus size), s.dropWhile isDigit)
    else .ok (none, mark :: rest)

def places : Reader (Option Bytes)
  | 0x2E :: rest =>
    let ds := rest.takeWhile isDigit
    let s := rest.dropWhile isDigit
    if ds.isEmpty then .error (if s.isEmpty then .ended .value else .invalidNumber)
    else .ok (some ds, s)
  | s => .ok (none, s)

/-- The digits before the point. A zero stands alone. -/
def whole : Reader Bytes
  | [] => .error (.ended .value)
  | b :: rest =>
    let ds := (b :: rest).takeWhile isDigit
    if ds.isEmpty ∨ (b = 0x30 ∧ ds.length > 1) then .error .invalidNumber
    else .ok (ds, (b :: rest).dropWhile isDigit)

/-- The number of an integer numeral: exact if it fits into a word, else a double. A negative zero is
a double. -/
def integerNumber (minus : Bool) (ds : List Char) : Number :=
  let double := .double (Decimal.approximate minus ds [] 0)
  match Decimal.natBelow? (Word.bound 64) ds with
  | none => double
  | some n =>
    if minus then if 0 < n ∧ n ≤ Word.bound 63 then .negative (Int64.ofInt (-n)) else double
    else .natural (UInt64.ofNat n)

def number (minus : Bool) : Reader Number := do
  let ds ← whole
  let fraction ← places
  let power ← exponent
  let n := match fraction, power with
    | none, none => integerNumber minus (charsOfDigits ds)
    | _, _ => .double (Decimal.approximate minus (charsOfDigits ds)
        (charsOfDigits (fraction.getD [])) (power.getD 0))
  match n with
  | .double x => if x.isFinite then return .double x else fail .numberOutOfRange
  | n => return n

/-- Passes over the digits of a number that nobody asks for. -/
def skipNumber : Reader Unit := fun s =>
  match s.takeWhile isDigit with
  | [] => .error .invalidNumber
  | d :: more =>
    if d = 0x30 ∧ ¬more.isEmpty then .error .invalidNumber
    else do
      let after := s.dropWhile isDigit
      let after ← match after with
        | 0x2E :: rest =>
          if (rest.takeWhile isDigit).isEmpty then .error .invalidNumber
          else .ok (rest.dropWhile isDigit)
        | _ => .ok after
      match after with
      | [] => .ok ((), [])
      | mark :: rest =>
        if mark = 0x65 ∨ mark = 0x45 then
          let (_, s) := sign rest
          if (s.takeWhile isDigit).isEmpty then .error .invalidNumber
          else .ok ((), s.dropWhile isDigit)
        else .ok ((), after)

def hexValue? (b : UInt8) : Option Nat :=
  if 0x30 ≤ b ∧ b ≤ 0x39 then some (b.toNat - 0x30)
  else if 0x61 ≤ b ∧ b ≤ 0x66 then some (b.toNat - 0x57)
  else if 0x41 ≤ b ∧ b ≤ 0x46 then some (b.toNat - 0x37)
  else none

def hexUnit : Reader Nat
  | a :: b :: c :: d :: rest =>
    match hexValue? a, hexValue? b, hexValue? c, hexValue? d with
    | some a, some b, some c, some d => .ok (((a * 16 + b) * 16 + c) * 16 + d, rest)
    | _, _, _, _ => .error .invalidEscape
  | _ => .error (.ended .string)

/-- The byte that an escape of one letter stands for. -/
def shortEscape? (b : UInt8) : Option UInt8 :=
  if b = 0x22 ∨ b = 0x5C ∨ b = 0x2F then some b
  else if b = 0x62 then some 0x08
  else if b = 0x66 then some 0x0C
  else if b = 0x6E then some 0x0A
  else if b = 0x72 then some 0x0D
  else if b = 0x74 then some 0x09
  else none

/-- The second half of a character beyond the basic plane, after the first half. -/
def trailingUnit : Reader Nat
  | [] => .error (.ended .string)
  | [b] => .error (if b = 0x5C then .ended .string else .brokenSurrogate)
  | b :: c :: rest =>
    if b = 0x5C ∧ c = 0x75 then do
      let (unit, rest) ← hexUnit rest
      if unit < 0xDC00 ∨ 0xDFFF < unit then .error .loneSurrogate else .ok (unit, rest)
    else .error .brokenSurrogate

/-- The character after `\u`. -/
def unicodeEscape : Reader Char := do
  let unit ← hexUnit
  if 0xDC00 ≤ unit ∧ unit ≤ 0xDFFF then fail .loneSurrogate
  else if 0xD800 ≤ unit ∧ unit ≤ 0xDBFF then
    let second ← trailingUnit
    return Char.ofNat ((unit - 0xD800) * 0x400 + (second - 0xDC00) + 0x10000)
  else return Char.ofNat unit

/-- The bytes that an escape stands for, after the backslash. -/
def escape : Reader Bytes
  | [] => .error (.ended .string)
  | b :: rest =>
    match shortEscape? b with
    | some plain => .ok ([plain], rest)
    | none =>
      if b = 0x75 then do
        let (c, rest) ← unicodeEscape rest
        .ok (String.utf8EncodeChar c, rest)
      else .error .invalidEscape

/-- The inside of a string, from the bytes read so far in reverse. The bytes have to be UTF-8 as a
whole, which is asked at the closing quote. -/
def textFrom : (bound : Bytes) → (read : Bytes) → Reader String
  | [], _ => fail (.ended .string)
  | _ :: bound, read => fun s =>
    match s with
    | [] => .error (.ended .string)
    | b :: rest =>
      if b = 0x22 then
        match Text.Utf8.decode? read.reverse with
        | some cs => .ok (String.ofList cs, rest)
        | none => .error .invalidCodePoint
      else if b = 0x5C then do
        let (bytes, rest) ← escape rest
        textFrom bound (bytes.reverse ++ read) rest
      else if b < 0x20 then .error .controlCharacter
      else textFrom bound (b :: read) rest

def text : Reader String := fun s => textFrom s [] s

/-- Passes over an escape after the backslash; which character it stands for is not asked. -/
def skipEscape : Reader Unit
  | [] => .error (.ended .string)
  | b :: rest =>
    match shortEscape? b with
    | some _ => .ok ((), rest)
    | none =>
      if b = 0x75 then (hexUnit rest).map fun r => ((), r.2) else .error .invalidEscape

def skipTextFrom : (bound : Bytes) → Reader Unit
  | [] => fail (.ended .string)
  | _ :: bound => fun s =>
    match s with
    | [] => .error (.ended .string)
    | b :: rest =>
      if b = 0x22 then .ok ((), rest)
      else if b = 0x5C then do
        let (_, rest) ← skipEscape rest
        skipTextFrom bound rest
      else if b < 0x20 then .error .controlCharacter
      else skipTextFrom bound rest

def skipText : Reader Unit := fun s => skipTextFrom s s

end Reader

end QueueBench.Json
