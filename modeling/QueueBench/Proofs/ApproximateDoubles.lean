import QueueBench.Decimal.Approximate
import QueueBench.Proofs.DigitRuns
import QueueBench.Proofs.RoundedArithmetic

set_option autoImplicit false

/- Doubles made of decimal fractions by one multiplication or a few divisions. Every step rounds,
but none leaves the range of doubles as long as the fraction is far from its end. -/
namespace QueueBench

open Double
open Decimal (Binary)

namespace Decimal

theorem ofDigitChars_lt {ds : List Char} (digits : ∀ c ∈ ds, c.isDigit) (n : Nat) :
    Nat.ofDigitChars 10 ds n < (n + 1) * 10 ^ ds.length := by
  induction ds generalizing n with
  | nil => simp [Nat.ofDigitChars_nil]
  | cons c ds ih =>
    obtain ⟨digit, later⟩ := List.forall_mem_cons.mp digits
    have size : c.toNat ≤ 57 := by
      simp only [Char.isDigit, Bool.and_eq_true, decide_eq_true_eq] at digit
      exact digit.2
    have zero : '0'.toNat = 48 := rfl
    rw [Nat.ofDigitChars_cons, List.length_cons, Nat.pow_succ']
    calc Nat.ofDigitChars 10 ds (10 * n + (c.toNat - '0'.toNat))
      _ < (10 * n + (c.toNat - '0'.toNat) + 1) * 10 ^ ds.length := ih later _
      _ ≤ (n + 1) * 10 * 10 ^ ds.length := Nat.mul_le_mul_right _ (by omega)
      _ = (n + 1) * (10 * 10 ^ ds.length) := Nat.mul_assoc _ _ _

theorem ofDigits_lt {ds : List Char} (digits : ∀ c ∈ ds, c.isDigit) :
    ofDigits ds < 10 ^ ds.length := by
  have below := ofDigitChars_lt digits 0
  rwa [Nat.zero_add, Nat.one_mul] at below

theorem le_ofDigitChars (ds : List Char) (n : Nat) :
    n * 10 ^ ds.length ≤ Nat.ofDigitChars 10 ds n := by
  induction ds generalizing n with
  | nil => simp [Nat.ofDigitChars_nil]
  | cons c ds ih =>
    rw [Nat.ofDigitChars_cons, List.length_cons, Nat.pow_succ', ← Nat.mul_assoc]
    exact (Nat.mul_le_mul_right _ (by omega)).trans (ih _)

theorem pack_lt {n : Nat} (word : n < Word.bound 64) (ds : List Char) :
    (pack n ds).1 < Word.bound 64 := by
  induction ds generalizing n with
  | nil => exact word
  | cons c ds ih =>
    unfold pack
    split
    case isTrue fits => exact ih fits
    case isFalse => exact word

/-- The digits that are left out make a number larger. -/
theorem pack_le (n : Nat) (ds : List Char) :
    (pack n ds).1 * 10 ^ (pack n ds).2.length ≤ Nat.ofDigitChars 10 ds n := by
  induction ds generalizing n with
  | nil => simp [pack, Nat.ofDigitChars_nil]
  | cons c ds ih =>
    unfold pack
    split
    case isTrue => exact ih _
    case isFalse => exact le_ofDigitChars (c :: ds) n

theorem length_pack_le (n : Nat) (ds : List Char) : (pack n ds).2.length ≤ ds.length := by
  induction ds generalizing n with
  | nil => exact Nat.le_refl 0
  | cons c ds ih =>
    unfold pack
    split
    case isTrue => exact (ih _).trans (Nat.le_succ _)
    case isFalse => exact Nat.le_refl _

/-- Digits that fit into a word are all packed. -/
theorem pack_of_fits {n : Nat} {ds : List Char} (fits : Nat.ofDigitChars 10 ds n < Word.bound 64) :
    pack n ds = (Nat.ofDigitChars 10 ds n, []) := by
  induction ds generalizing n with
  | nil => rfl
  | cons c ds ih =>
    rw [Nat.ofDigitChars_cons] at fits ⊢
    have first : 10 * n + digitValue c < Word.bound 64 := by
      have least := le_ofDigitChars ds (10 * n + (c.toNat - '0'.toNat))
      have grows := Nat.le_mul_of_pos_right (10 * n + (c.toNat - '0'.toNat))
        (Nat.pow_pos (n := ds.length) (show 0 < 10 by decide))
      exact Nat.lt_of_le_of_lt (grows.trans least) fits
    rw [pack, if_pos first]
    exact ih fits

/-- The powers of ten in the table: doubles with all bits of the mantissa in use, not below one and at
most twice the exact power. -/
theorem bits_powerOfTen : ∀ n : Fin 309,
    (powerOfTen n).isFinite = true ∧ (powerOfTen n).toBits.toNat < 2 ^ 63 ∧
      2 ^ 52 ≤ (Binary.ofBits (powerOfTen n).toBits).mantissa ∧
      2 ^ (-(Binary.ofBits (powerOfTen n).toBits).exponent).toNat ≤
        (Binary.ofBits (powerOfTen n).toBits).mantissa *
          2 ^ (Binary.ofBits (powerOfTen n).toBits).exponent.toNat ∧
      (Binary.ofBits (powerOfTen n).toBits).mantissa *
          2 ^ (Binary.ofBits (powerOfTen n).toBits).exponent.toNat ≤
        2 * 10 ^ n.val * 2 ^ (-(Binary.ofBits (powerOfTen n).toBits).exponent).toNat := by
  decide +kernel

/-- What is known of a double of the table. -/
structure IsPower (n : Nat) (x : Float) : Prop where
  positive : Positive x
  full : 2 ^ 52 ≤ (Binary.ofBits x.toBits).mantissa
  least : 1 ≤ (Binary.ofBits x.toBits).value
  most : (Binary.ofBits x.toBits).value ≤ 2 * 10 ^ n

theorem isPower_powerOfTen {n : Nat} (small : n ≤ lastPower) : IsPower n (powerOfTen n) := by
  obtain ⟨finite, plus, full, least, most⟩ := bits_powerOfTen ⟨n, Nat.lt_succ_of_le small⟩
  have unit : (0 : ℚ) < 2 ^ (-(Binary.ofBits (powerOfTen n).toBits).exponent).toNat := by positivity
  refine ⟨⟨finite, if_pos plus, Nat.lt_of_lt_of_le (by decide) full⟩, full, ?_, ?_⟩
  · rw [Binary.value, zpow_eq_div (by norm_num), ← mul_div_assoc, le_div_iff₀ unit, one_mul]
    exact_mod_cast least
  · rw [Binary.value, zpow_eq_div (by norm_num), ← mul_div_assoc, div_le_iff₀ unit]
    exact_mod_cast most

theorem nonNegative_overPower {rounds n : Nat} {x : Float} (nonNegative : NonNegative x)
    (enough : n ≤ lastPower * (rounds + 1)) : NonNegative (overPower rounds x n) := by
  have divided {x : Float} (nonNegative : NonNegative x) {n : Nat} (small : n ≤ lastPower) :
      NonNegative (x / powerOfTen n) := by
    have power := isPower_powerOfTen small
    exact nonNegative.div power.positive power.least
  induction rounds generalizing x n with
  | zero => exact divided nonNegative (by omega)
  | succ rounds ih =>
    unfold overPower
    split
    case isTrue small => exact divided nonNegative small
    case isFalse =>
      split
      case isTrue => exact nonNegative
      case isFalse =>
        refine ih (divided nonNegative (Nat.le_refl _)) ?_
        rw [Nat.mul_succ] at enough
        omega

/-- A word scaled up. The double of the word and the power from the table are each at most twice the
exact number. -/
theorem nonNegative_mul {n k : Nat} (some : 0 < n) (word : n < Word.bound 64)
    (power : k ≤ lastPower) (small : (n * 10 ^ k : ℚ) ≤ 2 ^ (1020 : Int)) :
    NonNegative ((UInt64.ofNat n).toFloat * powerOfTen k) := by
  have size : (UInt64.ofNat n).toNat = n := UInt64.toNat_ofNat_of_lt' word
  have positive : 0 < (UInt64.ofNat n).toNat := by omega
  have ten := isPower_powerOfTen power
  have inner : (n.log2 : Int) < 64 := by
    have := (Nat.log2_lt some.ne').mpr (show n < 2 ^ 64 from word)
    omega
  have upper : (n : ℚ) < 2 ^ ((n.log2 : Int) + 1) := by linarith [succ_le_zpow_log2 n]
  have rounded : (Binary.ofBits (UInt64.ofNat n).toFloat.toBits).value ≤ 2 * n := by
    have rounds := rounds_toFloat positive
    rw [size] at rounds
    calc _ ≤ (2 : ℚ) ^ ((n.log2 : Int) + 1) := rounds.value_le (by omega) (by omega) upper
      _ = 2 ^ (n.log2 : Int) * 2 := zpow_add_one₀ (by norm_num) _
      _ ≤ n * 2 := mul_le_mul_of_nonneg_right (zpow_log2_le some.ne') (by norm_num)
      _ = 2 * n := mul_comm _ _
  apply (rounds_mul (positive_toFloat positive) ten.positive ten.full).nonNegative
  calc _ ≤ (2 * n : ℚ) * (2 * 10 ^ k) :=
        mul_le_mul rounded ten.most (le_trans zero_le_one ten.least) (by positivity)
    _ = 2 ^ (2 : Int) * (n * 10 ^ k) := by norm_num; ring
    _ ≤ 2 ^ (2 : Int) * 2 ^ (1020 : Int) := mul_le_mul_of_nonneg_left small (by norm_num)
    _ = 2 ^ (1022 : Int) := by rw [← zpow_add₀ (by norm_num)]; norm_num
    _ < limit := zpow_lt_limit (by norm_num)

theorem place_le_lastPower {n : Nat} {place : Int} (some : 0 < n)
    (small : (n * 10 ^ place : ℚ) ≤ 2 ^ (1020 : Int)) : place ≤ lastPower := by
  by_contra beyond
  have least : (308 : Int) + 1 ≤ place := Int.lt_of_not_ge beyond
  have one : (1 : ℚ) ≤ n := by exact_mod_cast some
  have : (2 : ℚ) ^ (1020 : Int) < n * 10 ^ place := by
    calc (2 : ℚ) ^ (1020 : Int) ≤ 2 ^ ((93 : Int) * 11) :=
          zpow_le_zpow_right₀ (by norm_num) (by norm_num)
      _ = (2 ^ (93 : Int)) ^ (11 : Int) := zpow_mul _ _ _
      _ < (10 ^ (28 : Int)) ^ (11 : Int) :=
        zpow_lt_zpow_left₀ (by norm_num) (by norm_num) (by norm_num)
      _ = 10 ^ ((28 : Int) * 11) := (zpow_mul _ _ _).symm
      _ ≤ 10 ^ place := zpow_le_zpow_right₀ (by norm_num) (by omega)
      _ ≤ n * 10 ^ place := le_mul_of_one_le_left (zpow_pos (by norm_num) _).le one
  exact absurd small (not_le_of_gt this)

theorem nonNegative_scaled {n : Nat} {place : Int} (word : n < Word.bound 64)
    (small : (n * 10 ^ place : ℚ) ≤ 2 ^ (1020 : Int)) : NonNegative (scaled n place) := by
  have whole := nonNegative_toFloat (UInt64.ofNat n)
  unfold scaled
  dsimp only
  split
  case isTrue =>
    apply nonNegative_overPower whole
    have := Nat.lt_mul_div_succ place.natAbs (show 0 < lastPower by decide)
    omega
  case isFalse notBelow =>
    obtain ⟨k, rfl⟩ := Int.eq_ofNat_of_zero_le (not_lt.mp notBelow)
    rcases Nat.eq_zero_or_pos n with none | some
    · have zero : (UInt64.ofNat n).toFloat = ofUnpacked (.zero .positive) := by
        rw [none]
        rfl
      split
      case isTrue inside =>
        have power := isPower_powerOfTen (show (k : Int).natAbs ≤ lastPower by omega)
        rw [zero, zero_times power.positive]
        exact .zero rfl
      case isFalse => exact whole
    · have inside := place_le_lastPower some small
      rw [if_pos inside]
      apply nonNegative_mul some word (by omega)
      rwa [zpow_natCast] at small

/-- A fraction far from the end of the range, with few digits before the point, is read as a finite
double. -/
theorem isFinite_approximate {whole places : List Char} (digits : ∀ c ∈ whole, c.isDigit)
    (few : whole.length < 20) {exponent : Int}
    (small : (ofDigits (whole ++ places) * 10 ^ (exponent - (places.length : Int)) : ℚ) ≤
      2 ^ (1020 : Int)) : (approximate false whole places exponent).isFinite = true := by
  have fits : ofDigits whole < Word.bound 64 := by
    calc ofDigits whole < 10 ^ whole.length := ofDigits_lt digits
      _ ≤ 10 ^ 19 := Nat.pow_le_pow_right (by decide) (Nat.le_of_lt_succ few)
      _ ≤ Word.bound 64 := by decide
  have all : ofDigits (whole ++ places) = Nat.ofDigitChars 10 places (ofDigits whole) :=
    Nat.ofDigitChars_append 0
  have below := pack_le (ofDigits whole) places
  have left := length_pack_le (ofDigits whole) places
  have packed : pack 0 whole = (ofDigits whole, []) := pack_of_fits fits
  unfold approximate
  rw [packed]
  dsimp only
  rw [if_neg Bool.false_ne_true]
  apply NonNegative.isFinite
  apply nonNegative_scaled (pack_lt fits places)
  generalize pack (ofDigits whole) places = packed at below left
  have place : exponent + (([] : List Char).length : Int) -
      ((places.length - packed.2.length : Nat) : Int) =
        packed.2.length + (exponent - (places.length : Int)) := by
    rw [List.length_nil]
    omega
  have unit : (0 : ℚ) ≤ 10 ^ (exponent - (places.length : Int)) := (zpow_pos (by norm_num) _).le
  refine le_trans ?_ small
  rw [place, zpow_add₀ (by norm_num), zpow_natCast, ← mul_assoc, all]
  apply mul_le_mul_of_nonneg_right _ unit
  exact_mod_cast below

end Decimal

end QueueBench
