import QueueBench.Json.Shape

set_option autoImplicit false

namespace QueueBench.Decimal

theorem isNumeral_iff {cs : List Char} :
    isNumeral cs = true ↔ cs ≠ [] ∧ ∀ c ∈ cs, c.isDigit = true := by
  rw [isNumeral, Bool.and_eq_true, Bool.not_eq_true', List.isEmpty_eq_false_iff, List.all_eq_true]

theorem isNumeral_zeros (zeros : Nat) {cs : List Char} (numeral : isNumeral cs = true) :
    isNumeral (List.replicate zeros '0' ++ cs) = true := by
  obtain ⟨some, digit⟩ := isNumeral_iff.mp numeral
  refine isNumeral_iff.mpr ⟨List.append_ne_nil_of_right_ne_nil _ some, ?_⟩
  intro c member
  rcases List.mem_append.mp member with zero | later
  · rw [List.eq_of_mem_replicate zero]
    rfl
  · exact digit c later

theorem ofDigits_zeros (zeros : Nat) (cs : List Char) :
    ofDigits (List.replicate zeros '0' ++ cs) = ofDigits cs := by
  rw [ofDigits, Nat.ofDigitChars_append, Nat.ofDigitChars_replicate_zero, Nat.mul_zero]
  rfl

/-- A non-empty run of digits for a number; zeros in front are allowed. -/
structure Denotes (cs : List Char) (n : Nat) : Prop where
  numeral : isNumeral cs = true
  value : ofDigits cs = n

theorem denotes_digits (zeros n : Nat) : Denotes (List.replicate zeros '0' ++ digits n) n :=
  ⟨isNumeral_zeros zeros (isNumeral_digits n), by rw [ofDigits_zeros, ofDigits_digits]⟩

theorem natBelow?_word {cs : List Char} {n : UInt64} (denotes : Denotes cs n.toNat) :
    natBelow? Json.wordBound cs = some n.toNat :=
  natBelow?_eq_some_iff.mpr ⟨denotes.numeral, denotes.value, n.toNat_lt⟩

theorem natBelow?_halfWord {cs : List Char} {n : UInt32} (denotes : Denotes cs n.toNat) :
    natBelow? Json.halfWordBound cs = some n.toNat :=
  natBelow?_eq_some_iff.mpr ⟨denotes.numeral, denotes.value, n.toNat_lt⟩

/-- At most one sign and a non-empty run of digits for an integer; zeros in front are allowed. -/
inductive DenotesInteger : List Char → Int → Prop where
  | unsigned {run : List Char} {n : Nat} (denotes : Denotes run n) : DenotesInteger run n
  | plus {run : List Char} {n : Nat} (denotes : Denotes run n) : DenotesInteger ('+' :: run) n
  | minus {run : List Char} {n : Nat} (denotes : Denotes run n) : DenotesInteger ('-' :: run) (-n)

theorem splitSign_of_denotes {run : List Char} {n : Nat} (denotes : Denotes run n) :
    splitSign run = (false, run) := by
  have digit := (isNumeral_iff.mp denotes.numeral).2
  unfold splitSign
  split
  case h_1 => exact absurd (digit '+' List.mem_cons_self) (by decide)
  case h_2 => exact absurd (digit '-' List.mem_cons_self) (by decide)
  case h_3 => rfl

theorem integerBelow?_of_split {bound n : Nat} {cs run : List Char} {minus : Bool}
    (split : splitSign cs = (minus, run)) (denotes : Denotes run n) (small : n < bound) :
    integerBelow? bound cs = some (signed minus n) := by
  have read : natBelow? bound run = some n :=
    natBelow?_eq_some_iff.mpr ⟨denotes.numeral, denotes.value, small⟩
  unfold integerBelow?
  rw [split]
  dsimp only
  rw [read, Option.map_some]

theorem integerBelow?_of_denotes {bound : Nat} {cs : List Char} {i : Int}
    (denotes : DenotesInteger cs i) (small : i.natAbs < bound) :
    integerBelow? bound cs = some i := by
  cases denotes with
  | unsigned run => exact integerBelow?_of_split (splitSign_of_denotes run) run small
  | plus run => exact integerBelow?_of_split rfl run small
  | minus run =>
    rw [Int.natAbs_neg] at small
    exact integerBelow?_of_split rfl run small

/-- What stands behind the sign, and which sign it was. -/
theorem splitSign_cases (cs : List Char) :
    (∃ run, cs = '+' :: run ∧ splitSign cs = (false, run)) ∨
      (∃ run, cs = '-' :: run ∧ splitSign cs = (true, run)) ∨ splitSign cs = (false, cs) := by
  unfold splitSign
  split
  case h_1 run => exact .inl ⟨run, rfl, rfl⟩
  case h_2 run => exact .inr (.inl ⟨run, rfl, rfl⟩)
  case h_3 => exact .inr (.inr rfl)

theorem denotes_of_integerBelow? {bound : Nat} {cs : List Char} {i : Int}
    (read : integerBelow? bound cs = some i) : DenotesInteger cs i ∧ i.natAbs < bound := by
  unfold integerBelow? at read
  rcases splitSign_cases cs with ⟨run, rfl, sign⟩ | ⟨run, rfl, sign⟩ | sign
  all_goals
    rw [sign] at read
    obtain ⟨n, natural, rfl⟩ := Option.map_eq_some_iff.mp read
    obtain ⟨numeral, value, small⟩ := natBelow?_eq_some_iff.mp natural
  · exact ⟨.plus ⟨numeral, value⟩, small⟩
  · refine ⟨.minus ⟨numeral, value⟩, ?_⟩
    simp only [signed, ↓reduceIte, Int.natAbs_neg, Int.natAbs_natCast]
    exact small
  · exact ⟨.unsigned ⟨numeral, value⟩, small⟩

theorem denotesInteger_signedDigits (i : Int) : DenotesInteger (signedDigits i) i := by
  have size : Denotes (digits i.natAbs) i.natAbs := denotes_digits 0 i.natAbs
  unfold signedDigits
  by_cases negative : i < 0
  · have signed : i = -(i.natAbs : Int) := by omega
    rw [if_pos negative]
    conv => rhs; rw [signed]
    exact .minus size
  · have whole : i = (i.natAbs : Int) := by omega
    rw [if_neg negative]
    conv => rhs; rw [whole]
    exact .unsigned size

end QueueBench.Decimal
