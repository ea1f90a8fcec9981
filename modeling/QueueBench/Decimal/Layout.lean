import QueueBench.Decimal.Digits
import QueueBench.Decimal.Shortest

set_option autoImplicit false

namespace QueueBench.Decimal

/-- The choices of one written form of doubles. -/
structure Layout where
  /-- Whether a number whose leading digit stands for this power of ten is written without an
  exponent. -/
  positional : Int → Bool
  /-- Whether a whole number written without an exponent ends in `.0`. -/
  pointZero : Bool
  /-- Which of two equally near shortest forms is taken. -/
  tie : Tie

/-- Digits with the point in place; `lead` is the power of ten of the first digit. -/
def placed (pointZero : Bool) (ds : List Char) (lead : Int) : List Char :=
  if lead < 0 then
    '0' :: '.' :: List.replicate (-lead - 1).toNat '0' ++ ds
  else
    let whole := lead.toNat + 1
    if ds.length ≤ whole then
      ds ++ List.replicate (whole - ds.length) '0' ++ (if pointZero then ['.', '0'] else [])
    else ds.take whole ++ '.' :: ds.drop whole

/-- Digits with an exponent that always shows its sign. -/
def scientific (ds : List Char) (lead : Int) : List Char :=
  let mantissa := match ds with
    | [] => []
    | [d] => [d]
    | d :: rest => d :: '.' :: rest
  mantissa ++ 'e' :: (if lead < 0 then '-' else '+') :: digits lead.natAbs

def Layout.finite (style : Layout) (x : Float) : List Char :=
  let (point, place) := (Binary.ofBits x.toBits).shortest style.tie
  let ds := digits point
  let lead := place + ds.length - 1
  let text := if style.positional lead then placed style.pointZero ds lead else scientific ds lead
  if x.toBits.toNat < Word.bound 63 then text else '-' :: text

def Layout.render (style : Layout) (x : Float) : String :=
  if x.isNaN then "NaN"
  else if x.isInf then (if x < 0 then "-inf" else "inf")
  else String.ofList (style.finite x)

/-- Running text: never an exponent, and whole numbers without a point. -/
def plain : Layout := ⟨fun _ => true, false, .up⟩

/-- Running text that keeps doubles apart from integers. -/
def pointed : Layout := ⟨fun _ => true, true, .up⟩

end QueueBench.Decimal
