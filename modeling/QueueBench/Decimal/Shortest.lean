import QueueBench.Word

set_option autoImplicit false

/- The fewest decimal digits that read back as a given double. A double stands for all reals nearer
to it than to its neighbours (its cell), and the search walks down the decimal grids until one has a
point in the cell. A grid with a point in the cell has one next to the double itself, so two points
a grid suffice. -/
namespace QueueBench.Decimal

/-- A positive finite double as `mantissa · 2 ^ exponent`; `low` marks the doubles whose lower
neighbour is only half as far away as the upper one. -/
structure Binary where
  mantissa : Nat
  exponent : Int
  low : Bool
deriving DecidableEq, Repr

def Binary.ofBits (bits : UInt64) : Binary :=
  let field : Nat := bits.toNat / Word.bound 52 % Word.bound 11
  let fraction : Nat := bits.toNat % Word.bound 52
  if field = 0 then ⟨fraction, -1074, false⟩
  else ⟨fraction + Word.bound 52, (field : Int) - 1075, fraction = 0 ∧ field > 1⟩

/-- Which of two equally near points is taken. -/
inductive Tie where
  | toEven
  | up
deriving DecidableEq, Repr

/-- The point of the grid of multiples of `10 ^ place` that lies in the double's cell and is
nearest to the double. -/
def Binary.onGrid? (b : Binary) (tie : Tie) (place : Int) : Option Nat :=
  let quarter := b.exponent - 2
  let scale := Nat.pow 2 quarter.toNat * Nat.pow 10 (-place).toNat
  let step := Nat.pow 10 place.toNat * Nat.pow 2 (-quarter).toNat
  let value := 4 * b.mantissa * scale
  let top := (4 * b.mantissa + 2) * scale
  let bottom := (4 * b.mantissa - if b.low then 1 else 2) * scale
  let inCell := fun point : Nat =>
    if b.mantissa % 2 = 0 then decide (bottom ≤ point * step ∧ point * step ≤ top)
    else decide (bottom < point * step ∧ point * step < top)
  let below := value / step
  let above := below + 1
  match inCell below, inCell above with
  | true, true =>
    let down := value - below * step
    let up := above * step - value
    if down < up then some below
    else if up < down then some above
    else match tie with
      | .up => some above
      | .toEven => if below % 2 = 0 then some below else some above
  | true, false => some below
  | false, true => some above
  | false, false => none

/-- Walks down from a grid to the first that has a point in the cell. -/
def Binary.search (b : Binary) (tie : Tie) : Nat → Int → Nat × Int
  | 0, place => (0, place)
  | steps + 1, place =>
    match b.onGrid? tie place with
    | some point => (point, place)
    | none => b.search tie steps (place - 1)

/-- The shortest digits of a positive double and the place of the last one. The search starts above
the leading digit and seventeen digits always suffice. -/
def Binary.shortest (b : Binary) (tie : Tie) : Nat × Int :=
  if b.mantissa = 0 then (0, 0)
  else
    let bound := (((b.mantissa.log2 : Int) + 1 + b.exponent) * 30103).fdiv 100000 + 1
    b.search tie 24 bound

end QueueBench.Decimal
