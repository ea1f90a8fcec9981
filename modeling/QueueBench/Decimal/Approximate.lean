import QueueBench.Decimal.Numeral
import QueueBench.Word

set_option autoImplicit false

/- Doubles of decimal fractions as a fast reader makes them: the digits that fit into a word, times
or over a power of ten from a table. Each step rounds, so the result need not be the nearest double.
-/
namespace QueueBench.Decimal

/-- Goes on with a number while it fits into a word, and gives the digits left over. -/
def pack (n : Nat) : List Char → Nat × List Char
  | [] => (n, [])
  | c :: cs =>
    if 10 * n + digitValue c < Word.bound 64 then pack (10 * n + digitValue c) cs else (n, c :: cs)

def lastPower : Nat := 308

def powerOfTen (n : Nat) : Float := nearest 1 n

/-- A double over a power of ten, taken in rounds as far as the table goes. -/
def overPower : (rounds : Nat) → Float → Nat → Float
  | 0, x, n => x / powerOfTen n
  | rounds + 1, x, n =>
    if n ≤ lastPower then x / powerOfTen n
    else if x == 0 then x
    else overPower rounds (x / powerOfTen lastPower) (n - lastPower)

/-- A word at a place. Words other than zero at places beyond the table are out of range. -/
def scaled (n : Nat) (place : Int) : Float :=
  let x := (UInt64.ofNat n).toFloat
  if place < 0 then overPower (place.natAbs / lastPower) x place.natAbs
  else if place ≤ lastPower then x * powerOfTen place.natAbs
  else if n = 0 then x
  else Float.ofBits 0x7FF0000000000000

/-- The double of digits before and after a point and an exponent. Digits before the point that no
longer fit still count as places, and those after it are passed over. -/
def approximate (minus : Bool) (whole places : List Char) (exponent : Int) : Float :=
  let (n, left) := pack 0 whole
  let (n, rest) := pack n places
  let x := scaled n (exponent + left.length - (places.length - rest.length : Nat))
  if minus then -x else x

end QueueBench.Decimal
