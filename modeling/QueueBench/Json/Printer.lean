import QueueBench.Json.Basic
import QueueBench.Decimal.Layout

set_option autoImplicit false

namespace QueueBench.Json

open Decimal

/-- Doubles from 0.00001 up to 16 digits are written with the point in place and always show it;
all others have an exponent. -/
def numberLayout : Layout := ⟨fun lead => -5 ≤ lead && lead ≤ 15, true, .toEven⟩

def hexDigit (n : Nat) : Char := if n < 10 then Char.ofNat (48 + n) else Char.ofNat (87 + n)

/-- A character inside quotes. Quotes, backslashes and control characters are escaped. -/
def escaped (c : Char) : List Char :=
  if c = '"' then ['\\', '"']
  else if c = '\\' then ['\\', '\\']
  else if c.toNat = 8 then ['\\', 'b']
  else if c.toNat = 9 then ['\\', 't']
  else if c.toNat = 10 then ['\\', 'n']
  else if c.toNat = 12 then ['\\', 'f']
  else if c.toNat = 13 then ['\\', 'r']
  else if c.toNat < 32 then
    ['\\', 'u', '0', '0', hexDigit (c.toNat / 16), hexDigit (c.toNat % 16)]
  else [c]

def quoted (s : String) : List Char := '"' :: (s.toList.flatMap escaped ++ ['"'])

end QueueBench.Json

namespace QueueBench

def Number.text : Number → List Char
  | .natural n => Decimal.digits n.toNat
  | .negative i => Decimal.signedDigits i.toInt
  | .double x => Json.numberLayout.finite x

namespace Json

mutual

/-- The written form without spaces. -/
def chars : Json → List Char
  | null => ['n', 'u', 'l', 'l']
  | boolean true => ['t', 'r', 'u', 'e']
  | boolean false => ['f', 'a', 'l', 's', 'e']
  | number n => n.text
  | string s => quoted s
  | array items => '[' :: (itemChars items ++ [']'])
  | object members => '\x7b' :: (memberChars members ++ ['\x7d'])

def itemChars : List Json → List Char
  | [] => []
  | [v] => chars v
  | v :: w :: rest => chars v ++ ',' :: itemChars (w :: rest)

def memberChars : List (String × Json) → List Char
  | [] => []
  | [(name, v)] => quoted name ++ ':' :: chars v
  | (name, v) :: m :: rest => quoted name ++ ':' :: (chars v ++ ',' :: memberChars (m :: rest))

end

def compact (v : Json) : String := String.ofList v.chars

/-- A new line and its indent, two spaces a level. -/
def newLine (level : Nat) : List Char := '\n' :: List.replicate (2 * level) ' '

mutual

/-- The written form with every item and member on a line of its own, inside `level` levels. -/
def indentedChars (level : Nat) : Json → List Char
  | array [] => ['[', ']']
  | array (v :: rest) => '[' :: (indentedItems (level + 1) (v :: rest) ++ newLine level ++ [']'])
  | object [] => ['\x7b', '\x7d']
  | object (m :: rest) =>
    '\x7b' :: (indentedMembers (level + 1) (m :: rest) ++ newLine level ++ ['\x7d'])
  | null => chars null
  | boolean b => chars (boolean b)
  | number n => chars (number n)
  | string s => chars (string s)

def indentedItems (level : Nat) : List Json → List Char
  | [] => []
  | [v] => newLine level ++ indentedChars level v
  | v :: w :: rest => newLine level ++ indentedChars level v ++ ',' :: indentedItems level (w :: rest)

def indentedMembers (level : Nat) : List (String × Json) → List Char
  | [] => []
  | [(name, v)] => newLine level ++ quoted name ++ ':' :: ' ' :: indentedChars level v
  | (name, v) :: m :: rest =>
    newLine level ++ quoted name ++ ':' :: ' ' :: (indentedChars level v ++
      ',' :: indentedMembers level (m :: rest))

end

/-- The written form for reading, indented by two spaces a level. -/
def indented (v : Json) : String := String.ofList (v.indentedChars 0)

end Json

end QueueBench
