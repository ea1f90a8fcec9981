set_option autoImplicit false

namespace QueueBench.Decimal

/-- The numeral of a natural number, without leading zeros. -/
def digits (n : Nat) : List Char := Nat.toDigits 10 n

def ofDigits (cs : List Char) : Nat := Nat.ofDigitChars 10 cs 0

theorem ofDigits_digits (n : Nat) : ofDigits (digits n) = n :=
  Nat.ofDigitChars_toDigits (by decide) (by decide)

theorem digits_ne_nil (n : Nat) : digits n ≠ [] := Nat.toDigits_ne_nil

theorem isDigit_of_mem_digits {n : Nat} {c : Char} (h : c ∈ digits n) : c.isDigit :=
  Nat.isDigit_of_mem_toDigits (by decide) (by decide) h

/-- Whether a text is a non-empty run of digits. -/
def isNumeral (cs : List Char) : Bool := !cs.isEmpty && cs.all Char.isDigit

theorem isNumeral_digits (n : Nat) : isNumeral (digits n) := by
  simp only [isNumeral, Bool.and_eq_true, Bool.not_eq_true', List.isEmpty_eq_false_iff,
    List.all_eq_true]
  exact ⟨digits_ne_nil n, fun _ => isDigit_of_mem_digits⟩

def digitValue (c : Char) : Nat := c.toNat - '0'.toNat

/-- The number that the digits of a base denote after `n`, read on while it is below a bound. Digits
after it has reached the bound do not count. -/
def readUpTo (bound base : Nat) (n : Nat) : List Nat → Nat
  | [] => n
  | d :: ds => if n < bound then readUpTo bound base (base * n + d) ds else n

theorem le_foldl_digits {base n : Nat} (hb : 0 < base) (ds : List Nat) :
    n ≤ ds.foldl (fun n d => base * n + d) n := by
  induction ds generalizing n with
  | nil => exact Nat.le_refl n
  | cons d ds ih =>
    have := Nat.le_mul_of_pos_left n hb
    exact Nat.le_trans (show n ≤ base * n + d by omega) ih

/-- Below the bound nothing is left out. -/
theorem readUpTo_eq_iff {bound base m n : Nat} (hb : 0 < base) (hm : m < bound) (ds : List Nat) :
    readUpTo bound base n ds = m ↔ ds.foldl (fun n d => base * n + d) n = m := by
  induction ds generalizing n with
  | nil => rfl
  | cons d ds ih =>
    simp only [readUpTo, List.foldl_cons]
    split
    · exact ih
    · have h := le_foldl_digits (n := base * n + d) hb ds
      have := Nat.le_mul_of_pos_left n hb
      omega

/-- The number that a run of digits denotes, read while it is below a bound. -/
def ofDigitsUpTo (bound : Nat) (cs : List Char) : Nat := readUpTo bound 10 0 (cs.map digitValue)

theorem ofDigitsUpTo_eq_iff {bound m : Nat} (hm : m < bound) (cs : List Char) :
    ofDigitsUpTo bound cs = m ↔ ofDigits cs = m := by
  rw [ofDigitsUpTo, readUpTo_eq_iff (show 0 < 10 by decide) hm, List.foldl_map]
  rfl

def natBelow? (bound : Nat) (cs : List Char) : Option Nat :=
  if isNumeral cs ∧ ofDigitsUpTo bound cs < bound then some (ofDigitsUpTo bound cs) else none

theorem natBelow?_eq_some_iff {bound n : Nat} {cs : List Char} :
    natBelow? bound cs = some n ↔ isNumeral cs ∧ ofDigits cs = n ∧ n < bound := by
  simp only [natBelow?]
  split
  next h =>
    simp only [Option.some.injEq]
    constructor
    · rintro rfl; exact ⟨h.1, (ofDigitsUpTo_eq_iff h.2 cs).1 rfl, h.2⟩
    · rintro ⟨_, h, hb⟩; exact (ofDigitsUpTo_eq_iff hb cs).2 h
  next h =>
    simp only [reduceCtorEq, false_iff]
    rintro ⟨hn, hd, hb⟩
    have := (ofDigitsUpTo_eq_iff hb cs).2 hd
    exact h ⟨hn, by omega⟩

theorem natBelow?_digits {bound n : Nat} (h : n < bound) :
    natBelow? bound (digits n) = some n :=
  natBelow?_eq_some_iff.2 ⟨isNumeral_digits n, ofDigits_digits n, h⟩

/-- An optional sign and what follows it; the flag tells a minus. -/
def splitSign : List Char → Bool × List Char
  | '+' :: rest => (false, rest)
  | '-' :: rest => (true, rest)
  | cs => (false, cs)

def signed (minus : Bool) (size : Nat) : Int := if minus then -(size : Int) else (size : Int)

/-- The integer that an optional sign and a non-empty run of digits denote, if its size is below a
bound. -/
def integerBelow? (bound : Nat) (cs : List Char) : Option Int :=
  let (minus, rest) := splitSign cs
  (natBelow? bound rest).map (signed minus)

def signedDigits (i : Int) : List Char :=
  if i < 0 then '-' :: digits i.natAbs else digits i.natAbs

end QueueBench.Decimal
