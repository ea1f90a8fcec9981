import QueueBench.Decimal.Numeral
import QueueBench.Proofs.RoundedDoubles

set_option autoImplicit false

namespace QueueBench.Double

open Decimal (Binary)
open Float.Model (totalExponent)
open Float.Model.UnpackedFloat

theorem rounds_roundWithAccuracy {m : Nat} {e : Int} {accuracy : Accuracy} {q : ℚ}
    (enough : Enough m e) (stands : Stands (.ofMantissaAndAccuracy m accuracy) q) :
    Rounds (q * 2 ^ e) (ofUnpacked (roundWithAccuracy .binary64 .positive m e accuracy)) := by
  obtain ⟨n, place, isPlace, nearest, same⟩ := roundWithAccuracy_eq .positive enough stands
  exact ⟨n, place, isPlace, nearest, congrArg ofUnpacked same⟩

theorem rounds_exact {m : Nat} {e : Int} (enough : Enough m e) :
    Rounds (m * 2 ^ e) (ofUnpacked (roundWithAccuracy .binary64 .positive m e .exact)) :=
  rounds_roundWithAccuracy enough rfl

/-- A number of few bits gets as many as a double has. -/
theorem decreaseExponent_natural (n : Nat) :
    decreaseExponent n 0 (Float.Model.Format.binary64.targetExponent (totalExponent n 0)) =
      (n * 2 ^ (52 - n.log2), -((52 - n.log2 : Nat) : Int)) := by
  have shift : (0 - max ((n.log2 : Int) + 1 + 0 - 53) (-1074)).toNat = 52 - n.log2 := by omega
  rw [targetExponent_eq, totalExponent, decreaseExponent, shift, Nat.shiftLeft_eq, zero_sub]

theorem rounds_natural {n : Nat} (some : 0 < n) : Rounds n (ofUnpacked (ofNat .binary64 n)) := by
  have order : compare (n : Int) 0 = .gt := by
    rw [Int.compare_eq_gt]
    omega
  have enough : Enough (n * 2 ^ (52 - n.log2)) (-((52 - n.log2 : Nat) : Int)) := by
    refine .inr ?_
    calc 2 ^ 52 ≤ 2 ^ (n.log2 + (52 - n.log2)) := Nat.pow_le_pow_right (by decide) (by omega)
      _ = 2 ^ n.log2 * 2 ^ (52 - n.log2) := Nat.pow_add _ _ _
      _ ≤ n * 2 ^ (52 - n.log2) :=
        Nat.mul_le_mul_right _ ((Nat.le_log2 (by omega)).mp (Nat.le_refl _))
  have same : ((n * 2 ^ (52 - n.log2) : Nat) : ℚ) * 2 ^ (-((52 - n.log2 : Nat) : Int)) = n := by
    rw [zpow_neg, zpow_natCast, Nat.cast_mul, Nat.cast_pow, Nat.cast_ofNat]
    exact mul_inv_cancel_right₀ (by positivity) _
  rw [ofNat, ofInt, Float.Model.UnpackedFloat.normalize, order]
  dsimp only
  rw [Int.toNat_natCast, Float.Model.UnpackedFloat.round, decreaseExponent_natural]
  have rounds := rounds_exact enough
  rwa [same] at rounds

theorem rounds_toFloat {n : UInt64} (some : 0 < n.toNat) : Rounds n.toNat n.toFloat :=
  rounds_natural some

theorem stands_fraction {num den : Nat} (some : 0 < den) :
    Stands (.ofMantissaAndAccuracy (num / den) (accuracyOfFraction (num % den) den))
      (num / den : ℚ) := by
  have unit : (0 : ℚ) < den := by exact_mod_cast some
  have parts : (num : ℚ) / den = (num / den : Nat) + (num % den : Nat) / den := by
    rw [div_eq_iff unit.ne', add_mul, div_mul_cancel₀ _ unit.ne', mul_comm]
    exact_mod_cast (Nat.div_add_mod num den).symm
  have less : num % den < den := Nat.mod_lt _ some
  generalize num / den = m at parts
  generalize num % den = rest at parts less
  rw [parts]
  unfold accuracyOfFraction
  by_cases none : rest = 0
  · rw [if_pos none, none, Nat.cast_zero, zero_div, add_zero]
    rfl
  · rw [if_neg none]
    have above : (0 : ℚ) < rest / den := div_pos (by exact_mod_cast Nat.pos_of_ne_zero none) unit
    have below : (rest : ℚ) / den < 1 := by
      rw [div_lt_iff₀ unit, one_mul]
      exact_mod_cast less
    rcases order : compare (2 * rest) den
    · have half : (rest : ℚ) / den < 1 / 2 := by
        rw [div_lt_iff₀ unit]
        have : (2 * rest : ℚ) < den := by exact_mod_cast Nat.compare_eq_lt.mp order
        linarith
      show (m : ℚ) < m + rest / den ∧ (m : ℚ) + rest / den < m + 1 / 2
      exact ⟨by linarith, by linarith⟩
    · have half : (rest : ℚ) / den = 1 / 2 := by
        rw [div_eq_iff unit.ne']
        have : (2 * rest : ℚ) = den := by exact_mod_cast Nat.compare_eq_eq.mp order
        linarith
      rw [half]
      rfl
    · have half : 1 / 2 < (rest : ℚ) / den := by
        rw [lt_div_iff₀ unit]
        have : (den : ℚ) < 2 * rest := by exact_mod_cast Nat.compare_eq_gt.mp order
        linarith
      show (m : ℚ) + 1 / 2 < m + rest / den ∧ (m : ℚ) + rest / den < m + 1
      exact ⟨by linarith, by linarith⟩

section Operands

variable {m₁ m₂ : Nat} {e₁ e₂ : Int} (some₁ : 0 < m₁) (some₂ : 0 < m₂)

theorem rounds_div_unpacked :
    Rounds ((m₁ * 2 ^ e₁) / (m₂ * 2 ^ e₂)) (ofUnpacked (div .binary64
      (.finite .positive m₁ e₁ some₁) (.finite .positive m₂ e₂ some₂))) := by
  have last : (2 : ℚ) ^ e₂ ≠ 0 := zpow_ne_zero _ (by norm_num)
  have some₂' : (m₂ : ℚ) ≠ 0 := by exact_mod_cast some₂.ne'
  rw [div, divCore, targetExponent_eq, totalExponent, totalExponent]
  dsimp only
  generalize same : min (e₁ - e₂)
    (max ((m₁.log2 : Int) + 1 + e₁ - ((m₂.log2 : Int) + 1 + e₂) - 53) (-1074)) = e
  obtain ⟨shift, apart⟩ : ∃ shift : Nat, e₁ = e₂ + e + shift :=
    ⟨(e₁ - e₂ - e).toNat, by omega⟩
  have steps : (e₁ - e₂ - e).toNat = shift := by omega
  rw [steps, Nat.shiftLeft_eq]
  have exact : (m₁ * 2 ^ e₁ : ℚ) / (m₂ * 2 ^ e₂) = ((m₁ * 2 ^ shift : Nat) / m₂ : ℚ) * 2 ^ e := by
    rw [apart, zpow_add₀ (by norm_num), zpow_add₀ (by norm_num), zpow_natCast]
    push_cast
    field_simp
  have enough : Enough (m₁ * 2 ^ shift / m₂) e := by
    by_cases low : e ≤ -1074
    · exact .inl low
    · have places : m₂.log2 + 1 + 52 ≤ m₁.log2 + shift := by omega
      refine .inr ((Nat.le_div_iff_mul_le some₂).mpr ?_)
      calc 2 ^ 52 * m₂ ≤ 2 ^ 52 * 2 ^ (m₂.log2 + 1) := Nat.mul_le_mul_left _ Nat.lt_log2_self.le
        _ = 2 ^ (m₂.log2 + 1 + 52) := by rw [← Nat.pow_add, Nat.add_comm]
        _ ≤ 2 ^ (m₁.log2 + shift) := Nat.pow_le_pow_right (by decide) places
        _ = 2 ^ m₁.log2 * 2 ^ shift := Nat.pow_add _ _ _
        _ ≤ m₁ * 2 ^ shift :=
          Nat.mul_le_mul_right _ ((Nat.le_log2 some₁.ne').mp (Nat.le_refl _))
  rw [exact]
  exact rounds_roundWithAccuracy enough (stands_fraction some₂)

theorem rounds_mul_unpacked (enough : 2 ^ 52 ≤ m₁ * m₂) :
    Rounds ((m₁ * 2 ^ e₁) * (m₂ * 2 ^ e₂)) (ofUnpacked (mul .binary64
      (.finite .positive m₁ e₁ some₁) (.finite .positive m₂ e₂ some₂))) := by
  have exact : (m₁ * 2 ^ e₁ : ℚ) * (m₂ * 2 ^ e₂) = (m₁ * m₂ : Nat) * 2 ^ (e₁ + e₂) := by
    rw [zpow_add₀ (by norm_num)]
    push_cast
    ring
  rw [exact]
  exact rounds_exact (.inr enough)

end Operands

section Doubles

variable {x y : Float} (positive : Positive x) (positive' : Positive y)
include positive positive'

theorem rounds_div : Rounds ((Binary.ofBits x.toBits).value / (Binary.ofBits y.toBits).value)
    (x / y) := by
  have same : x / y = ofUnpacked (div .binary64 x.toModel.unpack y.toModel.unpack) := rfl
  rw [same, positive.unpack, positive'.unpack]
  exact rounds_div_unpacked positive.some positive'.some

theorem rounds_mul (full : 2 ^ 52 ≤ (Binary.ofBits y.toBits).mantissa) :
    Rounds ((Binary.ofBits x.toBits).value * (Binary.ofBits y.toBits).value) (x * y) := by
  have same : x * y = ofUnpacked (mul .binary64 x.toModel.unpack y.toModel.unpack) := rfl
  rw [same, positive.unpack, positive'.unpack]
  exact rounds_mul_unpacked positive.some positive'.some
    (full.trans (Nat.le_mul_of_pos_left _ positive.some))

end Doubles

/-- Doubles that are finite and not below zero. -/
inductive NonNegative (x : Float) : Prop where
  | zero (same : x = ofUnpacked (.zero .positive)) : NonNegative x
  | positive (positive : Positive x) : NonNegative x

/-- Whether a double is infinite or no number, or else not below zero and far from the largest. -/
def Moderate (x : Float) : Prop :=
  x.isFinite = true → NonNegative x ∧ (Binary.ofBits x.toBits).value ≤ 2 ^ (1005 : Int)

theorem NonNegative.isFinite {x : Float} (nonNegative : NonNegative x) : x.isFinite = true := by
  cases nonNegative with
  | zero same =>
    rw [same]
    exact isFinite_zero
  | positive positive => exact positive.finite

theorem moderate_zero : Moderate 0 := by
  have least : (0 : ℚ) ≤ 2 ^ (1005 : Int) := (zpow_pos (by norm_num) _).le
  exact fun _ => ⟨.zero rfl, value_zero.trans_le least⟩

theorem Rounds.nonNegative {v : ℚ} {x : Float} (rounds : Rounds v x) (small : v < limit) :
    NonNegative x := by
  cases rounds.rounded with
  | zero _ same => exact .zero same
  | finite m e some bits least full range _ same =>
    rw [same]
    exact .positive (positive_ofUnpacked ⟨bits, least, range.mp small, full⟩ some).1

theorem limit_pos : 0 < limit := lt_trans (zpow_pos (by norm_num) 0) (zpow_lt_limit (by norm_num))

theorem value_lt_limit {x : Float} (finite : x.isFinite = true) :
    (Binary.ofBits x.toBits).value < limit := by
  have canonical := canonical_ofBits finite
  have bits : ((Binary.ofBits x.toBits).mantissa : ℚ) + 1 ≤ 2 ^ 53 := by
    exact_mod_cast canonical.bits
  calc (Binary.ofBits x.toBits).value
    _ ≤ (2 ^ 53 - 1) * 2 ^ (Binary.ofBits x.toBits).exponent :=
        mul_le_mul_of_nonneg_right (by linarith) (zpow_pos (by norm_num) _).le
    _ ≤ (2 ^ 53 - 1) * 2 ^ (971 : Int) :=
        mul_le_mul_of_nonneg_left (zpow_le_zpow_right₀ (by norm_num) canonical.most) (by norm_num)
    _ < (2 ^ 53 - 1 / 2) * 2 ^ (971 : Int) :=
        mul_lt_mul_of_pos_right (by norm_num) (zpow_pos (by norm_num) _)
    _ = limit := limit_eq.symm

theorem zero_over {y : Float} (positive : Positive y) :
    ofUnpacked (.zero .positive) / y = ofUnpacked (.zero .positive) := by
  have same : ofUnpacked (.zero .positive) / y =
    ofUnpacked (div .binary64 (.zero .positive) y.toModel.unpack) := rfl
  rw [same, positive.unpack]
  rfl

theorem zero_times {y : Float} (positive : Positive y) :
    ofUnpacked (.zero .positive) * y = ofUnpacked (.zero .positive) := by
  have same : ofUnpacked (.zero .positive) * y =
    ofUnpacked (mul .binary64 (.zero .positive) y.toModel.unpack) := rfl
  rw [same, positive.unpack]
  rfl

/-- Division by one and more stays in range. -/
theorem NonNegative.div {x y : Float} (nonNegative : NonNegative x) (positive : Positive y)
    (large : 1 ≤ (Binary.ofBits y.toBits).value) : NonNegative (x / y) := by
  cases nonNegative with
  | zero same =>
    rw [same, zero_over positive]
    exact .zero rfl
  | positive positive' =>
    apply (rounds_div positive' positive).nonNegative
    have below := value_lt_limit positive'.finite
    rw [div_lt_iff₀ (lt_of_lt_of_le one_pos large)]
    exact below.trans_le (le_mul_of_one_le_right limit_pos.le large)

theorem positive_toFloat {n : UInt64} (some : 0 < n.toNat) : Positive n.toFloat := by
  have size := n.toNat_lt
  refine (rounds_toFloat some).positive ?_ ?_
  · calc (2 : ℚ) ^ (-1075 : Int) < 2 ^ (0 : Int) := zpow_lt_zpow_right₀ (by norm_num) (by norm_num)
      _ = 1 := zpow_zero 2
      _ ≤ n.toNat := by exact_mod_cast some
  · calc (n.toNat : ℚ) < 2 ^ (64 : Int) := by exact_mod_cast size
      _ < limit := zpow_lt_limit (by norm_num)

theorem toFloat_zero {n : UInt64} (none : n.toNat = 0) :
    n.toFloat = ofUnpacked (.zero .positive) := by
  have zero : n = 0 := UInt64.toNat_inj.mp none
  rw [zero]
  rfl

theorem nonNegative_toFloat (n : UInt64) : NonNegative n.toFloat := by
  rcases Nat.eq_zero_or_pos n.toNat with none | some
  · exact .zero (toFloat_zero none)
  · exact .positive (positive_toFloat some)

theorem zpow_eq_div {a : ℚ} (some : a ≠ 0) (e : Int) : a ^ e = a ^ e.toNat / a ^ (-e).toNat := by
  rw [← zpow_natCast, ← zpow_natCast, ← zpow_sub₀ some]
  congr 1
  omega

end QueueBench.Double
