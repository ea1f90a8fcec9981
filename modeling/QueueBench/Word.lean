set_option autoImplicit false

namespace QueueBench.Word

/-- The number of values of `width` bits. -/
def bound (width : Nat) : Nat := Nat.pow 2 width

/-- Whether an integer is a word of `width` bits without a sign. -/
def holds (width : Nat) (i : Int) : Bool := 0 ≤ i && i < bound width

/-- Whether an integer is a word of `width + 1` bits, one of which is the sign. -/
def holdsSigned (width : Nat) (i : Int) : Bool := -bound width ≤ i && i < bound width

end QueueBench.Word
