import QueueBench.Proofs.DoubleBits
import QueueBench.Proofs.NearestDoubles

set_option autoImplicit false

namespace QueueBench

def Decimal.Binary.value (b : Decimal.Binary) : ℚ := b.mantissa * 2 ^ b.exponent

namespace Double

open Decimal (Binary)
open Float.Model.UnpackedFloat

/-- Rounding a number gives the double. -/
def Rounds (v : ℚ) (x : Float) : Prop :=
  ∃ n place, IsPlace v place ∧ IsNearest n (v / 2 ^ place) ∧
    x = ofUnpacked (settled .positive n place)

/-- The numbers from here on round to an infinity: halfway between the largest double and the next
power of two. -/
def limit : ℚ := (2 ^ 54 - 1) * 2 ^ (970 : Int)

structure Positive (x : Float) : Prop where
  finite : x.isFinite = true
  sign : sign x = .positive
  some : 0 < (Binary.ofBits x.toBits).mantissa

theorem Positive.unpack {x : Float} (positive : Positive x) : x.toModel.unpack =
    .finite .positive (Binary.ofBits x.toBits).mantissa (Binary.ofBits x.toBits).exponent
      positive.some := by
  rw [unpack_of_isFinite positive.finite, dif_neg (Nat.ne_of_gt positive.some), positive.sign]

theorem Positive.of_unpack {x : Float} {m : Nat} {e : Int} {some : 0 < m}
    (unpacked : x.toModel.unpack = .finite .positive m e some) :
    Positive x ∧ (Binary.ofBits x.toBits).mantissa = m ∧ (Binary.ofBits x.toBits).exponent = e := by
  have finite : x.isFinite = true := by
    show x.toModel.unpack.isFinite = true
    rw [unpacked]
    rfl
  rw [unpack_of_isFinite finite] at unpacked
  split at unpacked
  case isTrue => cases unpacked
  case isFalse nonzero =>
    injection unpacked with same mantissa exponent
    exact ⟨⟨finite, same, Nat.pos_of_ne_zero nonzero⟩, mantissa, exponent⟩

theorem positive_ofUnpacked {m : Nat} {e : Int} (canonical : Canonical m e) (some : 0 < m) :
    Positive (ofUnpacked (.finite .positive m e some)) ∧
      (Binary.ofBits (ofUnpacked (.finite .positive m e some)).toBits).mantissa = m ∧
      (Binary.ofBits (ofUnpacked (.finite .positive m e some)).toBits).exponent = e :=
  Positive.of_unpack (unpack_ofUnpacked canonical some .positive)

theorem not_isFinite_ofUnpacked {m : Nat} {e : Int} (some : 0 < m) (large : 971 < e) :
    (ofUnpacked (.finite .positive m e some)).isFinite = false := by
  have biased : 2 ^ Float.Model.Format.binary64.exponentBits ≤
      (e + (Float.Model.Format.binary64.exponentBias : Int) +
        (Float.Model.Format.binary64.mantissaBitsWithoutImplicit : Int)).toNat + 1 := by
    show 2048 ≤ (e + 1023 + 52).toNat + 1
    omega
  rw [Bool.eq_false_iff, Ne, Double.isFinite_iff, not_not, field, toNat_ofUnpacked, pack]
  dsimp only
  rw [if_pos biased, packedInfinity, toNat_packComponents]
  rfl

theorem isFinite_zero : (ofUnpacked (.zero .positive)).isFinite = true := by
  rw [Double.isFinite_iff]
  decide

theorem value_zero : (Binary.ofBits (ofUnpacked (.zero .positive)).toBits).value = 0 := by
  have none : (Binary.ofBits (ofUnpacked (.zero .positive)).toBits).mantissa = 0 := by decide
  rw [Binary.value, none, Nat.cast_zero, zero_mul]

/-- What rounding gives: zero for the least numbers, and else 53 bits or the least place. No power of
two is passed on the way up. -/
inductive Rounded (v : ℚ) (x : Float) : Prop where
  | zero (least : v ≤ 2 ^ (-1075 : Int)) (same : x = ofUnpacked (.zero .positive)) : Rounded v x
  | finite (m : Nat) (e : Int) (some : 0 < m) (bits : m < 2 ^ 53) (least : -1074 ≤ e)
      (full : e = -1074 ∨ 2 ^ 52 ≤ m) (range : v < limit ↔ e ≤ 971)
      (capped : ∀ k : Int, -1021 ≤ k → v < 2 ^ k → (m : ℚ) * 2 ^ e ≤ 2 ^ k)
      (same : x = ofUnpacked (.finite .positive m e some)) : Rounded v x

theorem limit_eq : limit = (2 ^ 53 - 1 / 2) * 2 ^ (971 : Int) := by
  rw [limit, show (971 : Int) = 1 + 970 by norm_num, zpow_add₀ (by norm_num), zpow_one, ← mul_assoc]
  congr 1
  norm_num

theorem zpow_lt_limit {e : Int} (small : e ≤ 1023) : (2 : ℚ) ^ e < limit := by
  calc (2 : ℚ) ^ e ≤ 2 ^ (1023 : Int) := zpow_le_zpow_right₀ (by norm_num) small
    _ = 2 ^ 52 * 2 ^ (971 : Int) := by
      rw [show (1023 : Int) = 52 + 971 by norm_num, zpow_add₀ (by norm_num)]
      rfl
    _ < (2 ^ 53 - 1 / 2) * 2 ^ (971 : Int) :=
      mul_lt_mul_of_pos_right (by norm_num) (zpow_pos (by norm_num) _)
    _ = limit := limit_eq.symm

theorem limit_le_zpow {e : Int} (large : 1024 ≤ e) : limit ≤ (2 : ℚ) ^ e := by
  calc limit = (2 ^ 53 - 1 / 2) * 2 ^ (971 : Int) := limit_eq
    _ ≤ 2 ^ 53 * 2 ^ (971 : Int) :=
      mul_le_mul_of_nonneg_right (by norm_num) (zpow_pos (by norm_num) _).le
    _ = 2 ^ (1024 : Int) := by
      rw [show (1024 : Int) = 53 + 971 by norm_num, zpow_add₀ (by norm_num)]
      rfl
    _ ≤ 2 ^ e := zpow_le_zpow_right₀ (by norm_num) large

section Range

variable {v : ℚ} {x : Float}

theorem Rounds.rounded (rounds : Rounds v x) : Rounded v x := by
  obtain ⟨n, place, isPlace, nearest, same⟩ := rounds
  have unit : (0 : ℚ) < 2 ^ place := zpow_pos (by norm_num) place
  have bound := isPlace.nearest_le nearest
  have full := isPlace.le_nearest nearest
  have upper : v ≤ (n + 1 / 2) * 2 ^ place := (div_le_iff₀ unit).mp nearest.upper
  have lower : (n - 1 / 2) * 2 ^ place ≤ v := (le_div_iff₀ unit).mp nearest.lower
  have capped : ∀ k : Int, -1021 ≤ k → v < 2 ^ k → (n : ℚ) * 2 ^ place ≤ 2 ^ k := by
    intro k least small
    have room : place + 53 ≤ k := by
      rcases isPlace.reached with rfl | reached
      · omega
      · have := (zpow_lt_zpow_iff_right₀ (a := (2 : ℚ)) (by norm_num)).mp (reached.trans_lt small)
        omega
    calc (n : ℚ) * 2 ^ place ≤ 2 ^ 53 * 2 ^ place :=
          mul_le_mul_of_nonneg_right (by exact_mod_cast bound) unit.le
      _ = 2 ^ (place + 53) := by
        rw [zpow_add₀ (by norm_num), mul_comm]
        rfl
      _ ≤ 2 ^ k := zpow_le_zpow_right₀ (by norm_num) room
  rcases Nat.eq_zero_or_pos n with rfl | some
  · rcases full with rfl | many
    · refine .zero (upper.trans_eq ?_) same
      rw [Nat.cast_zero, zero_add, one_div, ← zpow_neg_one, ← zpow_add₀ (by norm_num)]
      rfl
    · omega
  · by_cases carry : n = 2 ^ 53
    · subst carry
      refine .finite (2 ^ 52) (place + 1) (by decide) (by decide) (by have := isPlace.least; omega)
        (.inr (Nat.le_refl _)) ⟨fun small => ?_, fun range => ?_⟩ (fun k least small => ?_) same
      · -- from the place 971 on the number is at least halfway to the next power of two
        by_contra large
        have reached : limit ≤ v := by
          calc limit = (2 ^ 53 - 1 / 2) * 2 ^ (971 : Int) := limit_eq
            _ ≤ (2 ^ 53 - 1 / 2) * 2 ^ place :=
              mul_le_mul_of_nonneg_left (zpow_le_zpow_right₀ (by norm_num) (by omega)) (by norm_num)
            _ ≤ v := by exact_mod_cast lower
        exact absurd small (not_lt_of_ge reached)
      · exact isPlace.below.trans (zpow_lt_limit (by omega))
      · refine le_trans (le_of_eq ?_) (capped k least small)
        rw [zpow_add_one₀ (by norm_num)]
        push_cast
        ring
    · have less : n < 2 ^ 53 := Nat.lt_of_le_of_ne bound carry
      have kept : settled .positive n place = .finite .positive n place some := by
        rw [settled, dif_neg (by omega), if_neg carry]
      rw [kept] at same
      refine .finite n place some less isPlace.least full ⟨fun small => ?_, fun range => ?_⟩
        capped same
      · by_contra large
        rcases isPlace.reached with rfl | reached
        · exact large (by norm_num)
        · exact absurd small (not_lt_of_ge ((limit_le_zpow (by omega)).trans reached))
      · -- the largest mantissa is odd, so the tie above it goes up
        have next : (n : ℚ) + 1 ≤ 2 ^ 53 := by exact_mod_cast less
        have most : (n + 1 / 2) * 2 ^ place ≤ limit := by
          calc (n + 1 / 2) * (2 : ℚ) ^ place ≤ (2 ^ 53 - 1 / 2) * 2 ^ place :=
                mul_le_mul_of_nonneg_right (by linarith) unit.le
            _ ≤ (2 ^ 53 - 1 / 2) * 2 ^ (971 : Int) :=
                mul_le_mul_of_nonneg_left (zpow_le_zpow_right₀ (by norm_num) range) (by norm_num)
            _ = limit := limit_eq.symm
        refine lt_of_le_of_ne (upper.trans most) fun tie => ?_
        rw [tie, limit_eq] at upper
        have top : place = 971 := by
          refine le_antisymm range ((zpow_le_zpow_iff_right₀ (a := (2 : ℚ)) (by norm_num)).mp ?_)
          have few : (n + 1 / 2) * (2 : ℚ) ^ place ≤ (2 ^ 53 - 1 / 2) * 2 ^ place :=
            mul_le_mul_of_nonneg_right (by linarith) unit.le
          exact le_of_mul_le_mul_left (upper.trans few) (by norm_num)
        subst top
        have many : (2 : ℚ) ^ 53 - 1 / 2 ≤ n + 1 / 2 := le_of_mul_le_mul_right upper unit
        have last : (n : ℚ) = 2 ^ 53 - 1 := by linarith only [many, next]
        have odd : n + 1 = 2 ^ 53 := by
          have : (n : ℚ) + 1 = 2 ^ 53 := by linarith only [last]
          exact_mod_cast this
        have even := nearest.even (.inr (by
          rw [tie, limit_eq, mul_div_cancel_right₀ _ unit.ne', last]
          norm_num))
        omega

theorem Rounds.isFinite_iff (rounds : Rounds v x) : x.isFinite = true ↔ v < limit := by
  cases rounds.rounded with
  | zero least same =>
    subst same
    exact iff_of_true isFinite_zero (least.trans_lt (zpow_lt_limit (by norm_num)))
  | finite m e some bits least full range _ same =>
    subst same
    rw [range]
    constructor
    · intro finite
      by_contra large
      rw [not_isFinite_ofUnpacked some (by omega)] at finite
      cases finite
    · intro most
      exact (positive_ofUnpacked ⟨bits, least, most, full⟩ some).1.finite

theorem Rounds.positive (rounds : Rounds v x) (some : 2 ^ (-1075 : Int) < v) (small : v < limit) :
    Positive x := by
  cases rounds.rounded with
  | zero least _ => exact absurd some (not_lt_of_ge least)
  | finite m e some bits least full range _ same =>
    subst same
    exact (positive_ofUnpacked ⟨bits, least, range.mp small, full⟩ some).1

theorem Rounds.value_le (rounds : Rounds v x) {k : Int} (least : -1021 ≤ k) (most : k ≤ 1023)
    (small : v < 2 ^ k) : (Binary.ofBits x.toBits).value ≤ 2 ^ k := by
  cases rounds.rounded with
  | zero _ same =>
    rw [same, value_zero]
    exact (zpow_pos (by norm_num) k).le
  | finite m e some bits least' full range capped same =>
    have inside := range.mp (small.trans (zpow_lt_limit most))
    obtain ⟨-, mantissa, exponent⟩ := positive_ofUnpacked ⟨bits, least', inside, full⟩ some
    rw [same, Binary.value, mantissa, exponent]
    exact capped k least small

end Range

/-- The numbers that are nearer to a double than to its neighbours: half a unit to both sides, and
only a quarter below a power of two. The ends go with an even mantissa. -/
structure InCell (b : Binary) (v : ℚ) : Prop where
  bottom : (b.mantissa - if b.low then 1 / 4 else 1 / 2) * 2 ^ b.exponent ≤ v
  top : v ≤ (b.mantissa + 1 / 2) * 2 ^ b.exponent
  inside : b.mantissa % 2 = 1 →
    (b.mantissa - if b.low then 1 / 4 else 1 / 2) * 2 ^ b.exponent < v ∧
      v < (b.mantissa + 1 / 2) * 2 ^ b.exponent

theorem InCell.bounds {b : Binary} {v : ℚ} (cell : InCell b v)
    (canonical : Canonical b.mantissa b.exponent) (some : 0 < b.mantissa) :
    2 ^ (-1075 : Int) < v ∧ v < limit := by
  obtain ⟨m, e, low⟩ := b
  obtain ⟨bottom, top, inside⟩ := cell
  obtain ⟨bits, least, most, full⟩ := canonical
  dsimp only at *
  have nonzero : 0 < m := some
  have unit : (0 : ℚ) < 2 ^ e := zpow_pos (by norm_num) e
  have half : (if low = true then 1 / 4 else 1 / 2 : ℚ) ≤ 1 / 2 := by split <;> norm_num
  have next : (m : ℚ) + 1 ≤ 2 ^ 53 := by exact_mod_cast bits
  have first : (1 : ℚ) ≤ m := by exact_mod_cast nonzero
  have lower : (2 : ℚ) ^ (-1075 : Int) ≤ (m - if low = true then 1 / 4 else 1 / 2) * 2 ^ e := by
    calc (2 : ℚ) ^ (-1075 : Int) = 1 / 2 * 2 ^ (-1074 : Int) := by
          rw [one_div, ← zpow_neg_one, ← zpow_add₀ (by norm_num)]
          rfl
      _ ≤ (m - if low = true then 1 / 4 else 1 / 2) * 2 ^ e :=
        mul_le_mul (by linarith only [half, first]) (zpow_le_zpow_right₀ (by norm_num) least)
          (zpow_pos (by norm_num) _).le (by linarith only [half, first])
  have upper : (m + 1 / 2) * (2 : ℚ) ^ e ≤ limit := by
    rw [limit_eq]
    exact mul_le_mul (by linarith only [next]) (zpow_le_zpow_right₀ (by norm_num) most) unit.le
      (by norm_num)
  -- both ends are open for an odd mantissa, and an even one stays clear of them
  rcases Nat.mod_two_eq_zero_or_one m with even | odd
  · have second : (2 : ℚ) ≤ m := by exact_mod_cast (show 2 ≤ m by omega)
    have last : (m : ℚ) + 2 ≤ 2 ^ 53 := by exact_mod_cast (show m + 2 ≤ 2 ^ 53 by omega)
    constructor
    · refine lt_of_lt_of_le ?_ bottom
      calc (2 : ℚ) ^ (-1075 : Int) < 2 ^ e := zpow_lt_zpow_right₀ (by norm_num) (by omega)
        _ ≤ (m - if low = true then 1 / 4 else 1 / 2) * 2 ^ e :=
          le_mul_of_one_le_left unit.le (by linarith only [half, second])
    · refine lt_of_le_of_lt top ?_
      rw [limit_eq]
      calc (m + 1 / 2) * (2 : ℚ) ^ e ≤ (m + 1 / 2) * 2 ^ (971 : Int) :=
            mul_le_mul_of_nonneg_left (zpow_le_zpow_right₀ (by norm_num) most)
              (by linarith only [second])
        _ < (2 ^ 53 - 1 / 2) * 2 ^ (971 : Int) :=
          mul_lt_mul_of_pos_right (by linarith only [last]) (zpow_pos (by norm_num) _)
  · exact ⟨lower.trans_lt (inside odd).1, (inside odd).2.trans_le upper⟩

end Double

end QueueBench
