import QueueBench.Aggregation.Rule
import QueueBench.Proofs.RoundedArithmetic

set_option autoImplicit false

namespace QueueBench

namespace Double

open Decimal (Binary)
open Float.Model.UnpackedFloat

variable {x y : Float}

theorem positive_of_pos (finite : x.isFinite = true) (above : 0 < x) : Positive x := by
  have order : (Float.Model.UnpackedFloat.compare (.zero .positive) x.toModel.unpack ==
    some Ordering.lt) = true := of_decide_eq_true (p := (0 : Float).toModel < x.toModel) above
  rw [unpack_of_isFinite finite] at order
  split at order
  case isTrue => cases order
  case isFalse nonzero =>
    cases same : sign x with
    | positive => exact ⟨finite, same, Nat.pos_of_ne_zero nonzero⟩
    | negative =>
      rw [same] at order
      cases order

theorem Positive.value_pos (positive : Positive x) : 0 < (Binary.ofBits x.toBits).value :=
  mul_pos (by exact_mod_cast positive.some) (zpow_pos (by norm_num) _)

/-- A double above a number of 53 bits is not below the next such number. -/
theorem next_le_value (finite : x.isFinite = true) {e : Int}
    (above : 2 ^ 52 * 2 ^ e < (Binary.ofBits x.toBits).value) :
    (2 ^ 52 + 1) * 2 ^ e ≤ (Binary.ofBits x.toBits).value := by
  have canonical := canonical_ofBits finite
  unfold Binary.value at above ⊢
  generalize (Binary.ofBits x.toBits).mantissa = m at *
  generalize (Binary.ofBits x.toBits).exponent = k at *
  have unit : (0 : ℚ) < 2 ^ e := zpow_pos (by norm_num) e
  -- a lower exponent would leave no more than the power of two
  have reached : e ≤ k := by
    by_contra lower
    have bits : (m : ℚ) ≤ 2 ^ 53 := by exact_mod_cast canonical.bits.le
    have small : (m : ℚ) * 2 ^ k ≤ 2 ^ 52 * 2 ^ e := by
      calc (m : ℚ) * 2 ^ k ≤ 2 ^ 53 * 2 ^ (e - 1) :=
            mul_le_mul bits (zpow_le_zpow_right₀ (by norm_num) (by omega))
              (zpow_pos (by norm_num) _).le (by norm_num)
        _ = 2 ^ 52 * 2 ^ e := by
            rw [zpow_sub_one₀ (by norm_num)]
            ring
    exact absurd above (not_lt_of_ge small)
  obtain ⟨steps, rfl⟩ : ∃ steps : Nat, k = e + steps := ⟨(k - e).toNat, by omega⟩
  have scaled : (m : ℚ) * 2 ^ (e + steps) = (m * 2 ^ steps : Nat) * 2 ^ e := by
    rw [zpow_add₀ (by norm_num), zpow_natCast]
    push_cast
    ring
  rw [scaled] at above ⊢
  have more : 2 ^ 52 < m * 2 ^ steps := by exact_mod_cast lt_of_mul_lt_mul_right above unit.le
  exact mul_le_mul_of_nonneg_right (by exact_mod_cast more) unit.le

/-- Division leaves infinities infinite. -/
theorem not_isFinite_div (infinite : x.isFinite = false) (positive : Positive y) :
    (x / y).isFinite = false := by
  have top : field x = 2047 := by
    by_contra below
    rw [isFinite_iff.mpr below] at infinite
    cases infinite
  have same : x / y = ofUnpacked (div .binary64 x.toModel.unpack y.toModel.unpack) := rfl
  rw [same, positive.unpack, unpack_eq, if_pos top]
  split
  · cases sign x
    · exact (show (ofUnpacked (.infinity .negative)).isFinite = false by decide)
    · exact (show (ofUnpacked (.infinity .positive)).isFinite = false by decide)
  · exact (show (ofUnpacked .notANumber).isFinite = false by decide)

end Double

open Decimal (Binary)

/-- The pops of a record as a number, which are those of its double. -/
def ThroughputRecord.pops (r : ThroughputRecord) : ℚ :=
  (Binary.ofBits r.successfulPops.toFloat.toBits).value

namespace AggregationRule

open Double

def seconds (rule : AggregationRule) : ℚ := (Binary.ofBits rule.window.toBits).value

/-- Whether the operations per second of a record are in the range of doubles. -/
def InRange (rule : AggregationRule) (r : ThroughputRecord) : Prop := r.pops / rule.seconds < limit

theorem positive_window {rule : AggregationRule} (valid : isValidWindow rule.window = true) :
    Positive rule.window := by
  unfold isValidWindow at valid
  rw [Bool.and_eq_true, decide_eq_true_iff] at valid
  exact positive_of_pos valid.1 valid.2

theorem pops_zero {r : ThroughputRecord} (none : r.successfulPops.toNat = 0) : r.pops = 0 := by
  unfold ThroughputRecord.pops
  rw [toFloat_zero none, value_zero]

/-- No record has more pops than fit into its word. -/
theorem pops_le (r : ThroughputRecord) : r.pops ≤ 2 ^ (64 : Int) := by
  rcases Nat.eq_zero_or_pos r.successfulPops.toNat with none | some
  · rw [pops_zero none]
    exact (zpow_pos (by norm_num) _).le
  · apply (rounds_toFloat some).value_le (by norm_num) (by norm_num)
    exact_mod_cast r.successfulPops.toNat_lt

theorem positive_million :
    Positive 1000000 ∧ (Binary.ofBits (1000000 : Float).toBits).value = 10 ^ 6 := by
  have mantissa : (Binary.ofBits (1000000 : Float).toBits).mantissa = 10 ^ 6 * 2 ^ 33 := by
    decide +kernel
  have exponent : (Binary.ofBits (1000000 : Float).toBits).exponent = -33 := by decide +kernel
  have plus : (1000000 : Float).toBits.toNat < 2 ^ 63 := by decide +kernel
  refine ⟨⟨by decide +kernel, if_pos plus, ?_⟩, ?_⟩
  · rw [mantissa]
    decide
  · rw [Binary.value, mantissa, exponent]
    norm_num

variable {rule : AggregationRule} (valid : isValidWindow rule.window = true)
include valid

/-- Operations per second are rounded from those of the record, and from zero for no pops. -/
theorem rate_cases (r : ThroughputRecord) :
    (r.pops = 0 ∧ r.successfulPops.toFloat / rule.window = ofUnpacked (.zero .positive)) ∨
      Rounds (r.pops / rule.seconds) (r.successfulPops.toFloat / rule.window) := by
  have window := positive_window valid
  rcases Nat.eq_zero_or_pos r.successfulPops.toNat with none | some
  · left
    rw [toFloat_zero none, zero_over window]
    exact ⟨pops_zero none, rfl⟩
  · exact .inr (rounds_div (positive_toFloat some) window)

/-- A throughput is finite just if its operations per second are in range: the second division makes
finite numbers less and leaves infinite ones. -/
theorem isFinite_mops_iff {r : ThroughputRecord} :
    (rule.mops r).isFinite = true ↔ rule.InRange r := by
  obtain ⟨million, value⟩ := positive_million
  have large : 1 ≤ (Binary.ofBits (1000000 : Float).toBits).value := by
    rw [value]
    norm_num
  unfold mops InRange
  rcases rate_cases valid r with ⟨none, zero⟩ | rate
  · rw [zero, zero_over million, none, zero_div]
    exact iff_of_true isFinite_zero limit_pos
  · rw [← rate.isFinite_iff]
    cases finite : (r.successfulPops.toFloat / rule.window).isFinite with
    | false => rw [not_isFinite_div finite million]
    | true =>
      have nonNegative := rate.nonNegative (rate.isFinite_iff.mp finite)
      exact iff_of_true (nonNegative.div million large).isFinite rfl

/-- Throughputs that are finite are far from the largest doubles, because the operations per second
are finite, too. -/
theorem moderate_mops (r : ThroughputRecord) : Moderate (rule.mops r) := by
  intro finite
  have range := (isFinite_mops_iff valid).mp finite
  obtain ⟨million, value⟩ := positive_million
  have least : 0 ≤ (2 : ℚ) ^ (1005 : Int) := (zpow_pos (by norm_num) _).le
  have zero := moderate_zero isFinite_zero
  unfold mops
  rcases rate_cases valid r with ⟨-, none⟩ | rate
  · rw [none, zero_over million]
    exact zero
  · cases rate.nonNegative range with
    | zero none =>
      rw [none, zero_over million]
      exact zero
    | positive positive =>
      have throughput := rounds_div positive million
      rw [value] at throughput
      have small : (Binary.ofBits (r.successfulPops.toFloat / rule.window).toBits).value / 10 ^ 6 <
          2 ^ (1005 : Int) := by
        rw [div_lt_iff₀ (by norm_num)]
        calc _ < limit := value_lt_limit positive.finite
          _ ≤ 2 ^ (1024 : Int) := limit_le_zpow (by norm_num)
          _ = 2 ^ (1005 : Int) * 2 ^ (19 : Int) := by rw [← zpow_add₀ (by norm_num)]; norm_num
          _ ≤ 2 ^ (1005 : Int) * 10 ^ 6 := mul_le_mul_of_nonneg_left (by norm_num) least
      exact ⟨throughput.nonNegative (small.trans (zpow_lt_limit (by norm_num))),
        throughput.value_le (by norm_num) (by norm_num) small⟩

/-- All records are in range just if the window is longer than this power of two. -/
theorem forall_inRange_iff : (∀ r, rule.InRange r) ↔ 2 ^ (-960 : Int) < rule.seconds := by
  have window := positive_window valid
  have positive : 0 < rule.seconds := window.value_pos
  constructor
  · intro all
    by_contra short
    have most := all ⟨⟨0, 0⟩, UInt64.ofNat (2 ^ 64 - 1), ∅⟩
    have pops : ThroughputRecord.pops ⟨⟨0, 0⟩, UInt64.ofNat (2 ^ 64 - 1), ∅⟩ = 2 ^ (64 : Int) := by
      show ((2 ^ 52 : Nat) : ℚ) * 2 ^ (12 : Int) = 2 ^ (64 : Int)
      norm_num
    rw [InRange, pops, div_lt_iff₀ positive] at most
    refine absurd most (not_lt_of_ge ?_)
    calc limit * rule.seconds ≤ 2 ^ (1024 : Int) * 2 ^ (-960 : Int) :=
          mul_le_mul (limit_le_zpow (by norm_num)) (not_lt.mp short) positive.le
            (zpow_pos (by norm_num) _).le
      _ = 2 ^ (64 : Int) := by
          rw [← zpow_add₀ (by norm_num)]
          norm_num
  · intro long r
    have split : (2 : ℚ) ^ (-960 : Int) = 2 ^ 52 * 2 ^ (-1012 : Int) := by
      rw [show (-960 : Int) = 52 + -1012 by norm_num, zpow_add₀ (by norm_num)]
      rfl
    have next : (2 ^ 52 + 1) * 2 ^ (-1012 : Int) ≤ rule.seconds :=
      next_le_value window.finite (split ▸ long)
    rw [InRange, div_lt_iff₀ positive]
    calc r.pops ≤ 2 ^ (64 : Int) := pops_le r
      _ = 2 ^ 105 * 2 ^ (-41 : Int) := by norm_num
      _ < (2 ^ 54 - 1) * (2 ^ 52 + 1) * 2 ^ (-42 : Int) := by norm_num
      _ = limit * ((2 ^ 52 + 1) * 2 ^ (-1012 : Int)) := by
          rw [limit, show (-42 : Int) = 970 + -1012 by norm_num, zpow_add₀ (by norm_num)]
          ring
      _ ≤ limit * rule.seconds := mul_le_mul_of_nonneg_left next limit_pos.le

end AggregationRule

end QueueBench
