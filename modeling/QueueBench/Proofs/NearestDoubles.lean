import Mathlib

set_option autoImplicit false

/- Rounding to doubles. A mantissa keeps two further bits of what was cut off behind it, and they
are enough to round it to the nearest, a tie to the even one. So what an operation on doubles makes
of the exact result depends on that result alone. -/
namespace QueueBench.Double

open Float.Model (Format totalExponent)
open Float.Model.UnpackedFloat

/-- What a mantissa with its two further bits says about a number. -/
def Stands (em : ExtendedMantissa) (q : ℚ) : Prop :=
  match em.roundBit, em.stickyBit with
  | false, false => q = em.mantissa
  | false, true => em.mantissa < q ∧ q < em.mantissa + 1 / 2
  | true, false => q = em.mantissa + 1 / 2
  | true, true => em.mantissa + 1 / 2 < q ∧ q < em.mantissa + 1

theorem Stands.bounds {em : ExtendedMantissa} {q : ℚ} (stands : Stands em q) :
    em.mantissa ≤ q ∧ q < em.mantissa + 1 := by
  obtain ⟨m, round, sticky⟩ := em
  cases round <;> cases sticky <;> simp only [Stands] at stands ⊢ <;> constructor <;> linarith

/-- Halving the number shifts its mantissa by one place. -/
theorem Stands.shiftRightOne {em : ExtendedMantissa} {q : ℚ} (stands : Stands em q) :
    Stands em.shiftRightOne (q / 2) := by
  obtain ⟨m, round, sticky⟩ := em
  have parity : (m : ℚ) = 2 * (m / 2 : ℕ) + (m % 2 : ℕ) := by exact_mod_cast (Nat.div_add_mod m 2).symm
  rcases Nat.mod_two_eq_zero_or_one m with even | odd
  · rw [even, Nat.cast_zero, add_zero] at parity
    cases round <;> cases sticky <;>
      simp only [Stands, ExtendedMantissa.shiftRightOne, even, bne_self_eq_false, Bool.or_false,
        Bool.or_true, parity] at stands ⊢ <;>
      first | linarith | constructor <;> linarith
  · rw [odd, Nat.cast_one] at parity
    cases round <;> cases sticky <;>
      simp [Stands, ExtendedMantissa.shiftRightOne, odd, parity] at stands ⊢ <;>
      first | linarith | constructor <;> linarith

theorem Stands.shiftRight {em : ExtendedMantissa} {q : ℚ} (stands : Stands em q) (n : Nat) :
    Stands (em >>> n) (q / 2 ^ n) := by
  induction n with
  | zero => rwa [pow_zero, div_one]
  | succ n ih =>
    rw [pow_succ, ← div_div]
    exact ih.shiftRightOne

/-- A whole number nearest to a number, of two the even one. -/
structure IsNearest (n : Nat) (q : ℚ) : Prop where
  lower : n - 1 / 2 ≤ q
  upper : q ≤ n + 1 / 2
  even : q = n - 1 / 2 ∨ q = n + 1 / 2 → n % 2 = 0

theorem Stands.isNearest {em : ExtendedMantissa} {q : ℚ} (stands : Stands em q) :
    IsNearest em.roundedMantissa q := by
  obtain ⟨m, round, sticky⟩ := em
  simp only [ExtendedMantissa.roundedMantissa]
  match round, sticky, stands with
  | false, false, stands =>
    have same : q = m := stands
    simp only [ExtendedMantissa.accuracy, Accuracy.roundToNearestEven]
    refine ⟨by linarith, by linarith, fun tie => ?_⟩
    rcases tie with tie | tie <;> linarith
  | false, true, ⟨above, below⟩ =>
    simp only [ExtendedMantissa.accuracy, Accuracy.roundToNearestEven]
    dsimp only at above below
    refine ⟨by linarith, by linarith, fun tie => ?_⟩
    rcases tie with tie | tie <;> linarith
  | true, true, ⟨above, below⟩ =>
    simp only [ExtendedMantissa.accuracy, Accuracy.roundToNearestEven]
    dsimp only at above below
    refine ⟨by push_cast; linarith, by push_cast; linarith, fun tie => ?_⟩
    push_cast at tie
    rcases tie with tie | tie <;> linarith
  | true, false, stands =>
    have same : q = m + 1 / 2 := stands
    simp only [ExtendedMantissa.accuracy, Accuracy.roundToNearestEven]
    -- a tie goes up from an odd mantissa only
    rcases Nat.mod_two_eq_zero_or_one m with even | odd
    · rw [even, Nat.add_zero]
      exact ⟨by linarith, by linarith, fun _ => even⟩
    · rw [odd]
      refine ⟨by push_cast; linarith, by push_cast; linarith, fun _ => by omega⟩

/-- The place of the last bit that a double next to a number has. There are 53 bits, unless the last
of them would be below the least place. -/
structure IsPlace (v : ℚ) (place : Int) : Prop where
  least : -1074 ≤ place
  below : v < 2 ^ (place + 53)
  reached : place = -1074 ∨ 2 ^ (place + 52) ≤ v

section Multiples

variable {v : ℚ} {place : Int} (isPlace : IsPlace v place) {n : Nat}
  (nearest : IsNearest n (v / 2 ^ place))
include isPlace nearest

theorem IsPlace.nearest_le : n ≤ 2 ^ 53 := by
  have small : v / 2 ^ place < 2 ^ 53 := by
    rw [div_lt_iff₀ (zpow_pos (by norm_num) _)]
    calc v < 2 ^ (place + 53) := isPlace.below
      _ = 2 ^ 53 * 2 ^ place := by
        rw [zpow_add₀ (by norm_num), mul_comm]
        rfl
  have next : (n : ℚ) < 2 ^ 53 + 1 := by linarith [nearest.lower]
  exact Nat.lt_succ_iff.mp (by exact_mod_cast next)

theorem IsPlace.le_nearest : place = -1074 ∨ 2 ^ 52 ≤ n := by
  refine isPlace.reached.imp_right fun reached => ?_
  have large : 2 ^ 52 ≤ v / 2 ^ place := by
    rw [le_div_iff₀ (zpow_pos (by norm_num) _)]
    calc (2 : ℚ) ^ 52 * 2 ^ place = 2 ^ (place + 52) := by
          rw [zpow_add₀ (by norm_num), mul_comm]
          rfl
      _ ≤ v := reached
  have next : (2 : ℚ) ^ 52 < n + 1 := by linarith [nearest.upper]
  exact Nat.lt_succ_iff.mp (by exact_mod_cast next)

end Multiples

theorem targetExponent_eq (total : Int) :
    Format.binary64.targetExponent total = max (total - 53) (-1074) := by
  have bits : (Format.binary64.mantissaBits : Int) = 53 := rfl
  have least : Format.binary64.minExponent = -1074 := rfl
  rw [Format.targetExponent, bits, least]

theorem zpow_log2_le {m : Nat} (positive : m ≠ 0) : (2 : ℚ) ^ (m.log2 : Int) ≤ m := by
  rw [zpow_natCast]
  exact_mod_cast (Nat.le_log2 positive).mp (Nat.le_refl _)

theorem succ_le_zpow_log2 (m : Nat) : (m : ℚ) + 1 ≤ 2 ^ ((m.log2 : Int) + 1) := by
  have less : m < 2 ^ (m.log2 + 1) := Nat.lt_log2_self
  rw [show (m.log2 : Int) + 1 = ((m.log2 + 1 : Nat) : Int) by push_cast; rfl, zpow_natCast]
  exact_mod_cast less

section Rounding

variable {m : Nat} {e : Int} {accuracy : Accuracy} {q : ℚ}

/-- A mantissa has enough bits if rounding need only drop some. -/
def Enough (m : Nat) (e : Int) : Prop := e ≤ -1074 ∨ 2 ^ 52 ≤ m

theorem Enough.le_target (enough : Enough m e) :
    e ≤ Format.binary64.targetExponent (totalExponent m e) := by
  rw [targetExponent_eq, totalExponent]
  rcases enough with low | bits
  · exact le_max_of_le_right low
  · have places : 52 ≤ m.log2 := (Nat.le_log2 (by omega)).mpr bits
    exact le_max_of_le_left (by omega)

theorem Enough.isPlace (enough : Enough m e) (lower : m ≤ q) (upper : q < m + 1) :
    IsPlace (q * 2 ^ e) (Format.binary64.targetExponent (totalExponent m e)) := by
  have unit : (0 : ℚ) < 2 ^ e := zpow_pos (by norm_num) e
  rw [targetExponent_eq, totalExponent]
  refine ⟨le_max_right _ _, ?_, ?_⟩
  · calc q * 2 ^ e < (m + 1) * 2 ^ e := mul_lt_mul_of_pos_right upper unit
      _ ≤ 2 ^ ((m.log2 : Int) + 1) * 2 ^ e :=
        mul_le_mul_of_nonneg_right (succ_le_zpow_log2 m) unit.le
      _ = 2 ^ ((m.log2 : Int) + 1 + e) := (zpow_add₀ (by norm_num) _ _).symm
      _ ≤ _ := zpow_le_zpow_right₀ (by norm_num) (by omega)
  · by_cases low : (m.log2 : Int) + 1 + e - 53 ≤ -1074
    · exact .inl (max_eq_right low)
    · have some : m ≠ 0 := by
        rintro rfl
        have none : Nat.log2 0 = 0 := by decide
        rcases enough with least | bits
        · rw [none] at low
          omega
        · omega
      rw [max_eq_left (by omega)]
      refine .inr ?_
      calc (2 : ℚ) ^ ((m.log2 : Int) + 1 + e - 53 + 52) = 2 ^ (m.log2 : Int) * 2 ^ e := by
            rw [← zpow_add₀ (by norm_num)]
            congr 1
            omega
        _ ≤ m * 2 ^ e := mul_le_mul_of_nonneg_right (zpow_log2_le some) unit.le
        _ ≤ q * 2 ^ e := mul_le_mul_of_nonneg_right lower unit.le

/-- The number with a nearest whole multiple of a place; 53 full bits and one more carry over to the
next place. -/
def settled (sign : Sign) (n : Nat) (place : Int) : Float.Model.UnpackedFloat :=
  if some : n = 0 then .zero sign
  else if n = 2 ^ 53 then .finite sign (2 ^ 52) (place + 1) (by decide)
  else .finite sign n place (Nat.pos_of_ne_zero some)

theorem shiftToTargetExponent_nearest {n : Nat} {place : Int} (least : -1074 ≤ place)
    (bound : n ≤ 2 ^ 53) :
    shiftToTargetExponent .binary64 n place .exact =
      if n = 2 ^ 53 then (⟨2 ^ 52, false, false⟩, place + 1) else (⟨n, false, false⟩, place) := by
  rw [shiftToTargetExponent, shiftToExponent, targetExponent_eq, totalExponent]
  split
  case isTrue full =>
    subst full
    have places : Nat.log2 (2 ^ 53) = 53 := by decide
    have shift : (max ((Nat.log2 (2 ^ 53) : Int) + 1 + place - 53) (-1074) - place).toNat = 1 := by
      rw [places]
      omega
    rw [shift]
    rfl
  case isFalse partly =>
    have places : n.log2 < 53 := by
      rcases Nat.eq_zero_or_pos n with rfl | positive
      · decide
      · exact (Nat.log2_lt (by omega)).mpr (by omega)
    have shift : (max ((n.log2 : Int) + 1 + place - 53) (-1074) - place).toNat = 0 := by omega
    rw [shift]
    simp only [Nat.cast_zero, add_zero]
    rfl

/-- What is rounded is the nearest multiple of the place of the number. -/
theorem roundWithAccuracy_eq (sign : Sign) (enough : Enough m e)
    (stands : Stands (.ofMantissaAndAccuracy m accuracy) q) :
    ∃ n place, IsPlace (q * 2 ^ e) place ∧ IsNearest n (q * 2 ^ e / 2 ^ place) ∧
      roundWithAccuracy .binary64 sign m e accuracy = settled sign n place := by
  have bounds : m ≤ q ∧ q < m + 1 := by
    have bounds := stands.bounds
    cases accuracy with
    | exact => exact bounds
    | inexact order => cases order <;> exact bounds
  have isPlace := enough.isPlace bounds.1 bounds.2
  have reaches := enough.le_target
  generalize same : Format.binary64.targetExponent (totalExponent m e) = place at isPlace reaches
  obtain ⟨shift, apart⟩ : ∃ shift : Nat, place = e + shift := ⟨(place - e).toNat, by omega⟩
  have scaled : q / 2 ^ shift = q * 2 ^ e / 2 ^ place := by
    have unit : (2 : ℚ) ^ e ≠ 0 := zpow_ne_zero _ (by norm_num)
    rw [apart, zpow_add₀ (by norm_num), zpow_natCast]
    field_simp
  have nearest := (stands.shiftRight shift).isNearest
  rw [scaled] at nearest
  have shifted : shiftToTargetExponent .binary64 m e accuracy =
      (ExtendedMantissa.ofMantissaAndAccuracy m accuracy >>> shift, place) := by
    rw [shiftToTargetExponent, same, shiftToExponent]
    have steps : (place - e).toNat = shift := by omega
    rw [steps, ← apart]
  generalize ExtendedMantissa.ofMantissaAndAccuracy m accuracy >>> shift = em at nearest shifted
  have bound := isPlace.nearest_le nearest
  refine ⟨em.roundedMantissa, place, isPlace, nearest, ?_⟩
  have settle := shiftToTargetExponent_nearest isPlace.least bound
  rw [roundWithAccuracy, shifted]
  dsimp only
  generalize shiftToTargetExponent .binary64 em.roundedMantissa place .exact = final at settle
  unfold settled
  by_cases full : em.roundedMantissa = 2 ^ 53
  · rw [if_pos full] at settle
    subst settle
    rw [dif_neg (show ¬ 2 ^ 52 = 0 by decide), dif_neg (by omega), if_pos full]
  · rw [if_neg full] at settle
    subst settle
    simp only [full, ↓reduceIte]

end Rounding

end QueueBench.Double
