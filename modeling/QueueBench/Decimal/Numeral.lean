import QueueBench.Decimal.Digits

set_option autoImplicit false

namespace QueueBench.Decimal

/-- The number `digits · 10 ^ exponent`, negated if `negative`. -/
structure Numeral where
  negative : Bool
  digits : Nat
  exponent : Int
deriving DecidableEq, Repr

/-- How many digits tell doubles apart. The number halfway between two neighbours has at most 767. -/
def keptDigits : Nat := 800

/-- The numeral of a run of digits, the last of which counts `10 ^ exponent`. Beyond the digits that
tell doubles apart it only matters whether others than zeros follow, which one more digit says. -/
def Numeral.ofRun (negative : Bool) (ds : List Char) (exponent : Int) : Numeral :=
  let ds := ds.dropWhile (· == '0')
  match ds.drop keptDigits with
  | [] => ⟨negative, ofDigits ds, exponent⟩
  | rest =>
    ⟨negative, 10 * ofDigits (ds.take keptDigits) + (if rest.all (· == '0') then 0 else 1),
      exponent + ((rest.length - 1 : Nat) : Int)⟩

/-- The double nearest to `digits · 10 ^ exponent`. The two guards settle the numbers far outside
the range of doubles, for which the power of ten need not be formed. -/
def nearest (digits : Nat) (exponent : Int) : Float :=
  if digits = 0 then 0
  else if (digits.log2 : Int) + 3 * exponent > 1100 ∧ exponent > 0 then Float.ofBits 0x7FF0000000000000
  else if (digits.log2 : Int) + 3 * exponent < -1100 ∧ exponent < 0 then 0
  else Float.ofScientific digits (exponent < 0) exponent.natAbs

/-- The double nearest to a numeral; a negative zero keeps its sign. -/
def Numeral.toDouble (n : Numeral) : Float :=
  let magnitude := nearest n.digits n.exponent
  if n.negative then -magnitude else magnitude

def ofInt (i : Int) : Float := Numeral.toDouble ⟨i < 0, i.natAbs, 0⟩

/-- The size of an exponent from which on further digits do not count. -/
def exponentBound : Nat := 0x10000

def exponentOf (minus : Bool) (ds : List Char) : Int := signed minus (ofDigitsUpTo exponentBound ds)

def exponent? (cs : List Char) : Option Int :=
  let (minus, rest) := splitSign cs
  if isNumeral rest then some (exponentOf minus rest) else none

/-- Digits with an optional point among or beside them, at least one digit in all: all digits, and
the exponent that the last of them counts. -/
def fraction? (cs : List Char) : Option (List Char × Int) :=
  let whole := cs.takeWhile Char.isDigit
  match cs.dropWhile Char.isDigit with
  | [] => if whole.isEmpty then none else some (whole, 0)
  | '.' :: places =>
    if places.all Char.isDigit ∧ ¬(whole.isEmpty ∧ places.isEmpty) then
      some (whole ++ places, -(places.length : Int))
    else none
  | _ => none

def numeral? (cs : List Char) : Option Numeral := do
  let (negative, rest) := splitSign cs
  let isMark := fun c => c == 'e' || c == 'E'
  let (digits, exponent) ← fraction? (rest.takeWhile fun c => !isMark c)
  match rest.dropWhile fun c => !isMark c with
  | [] => return Numeral.ofRun negative digits exponent
  | _ :: written => return Numeral.ofRun negative digits (exponent + (← exponent? written))

/-- The double that a text denotes: a numeral, or a signed infinity or NaN in any case. -/
def double? (cs : List Char) : Option Float :=
  let (negative, rest) := splitSign cs
  let word := String.ofList (rest.map Char.toLower)
  if word = "inf" ∨ word = "infinity" then
    some (Float.ofBits (if negative then 0xFFF0000000000000 else 0x7FF0000000000000))
  else if word = "nan" then some (Float.ofBits 0x7FF8000000000000)
  else (numeral? cs).map Numeral.toDouble

end QueueBench.Decimal
