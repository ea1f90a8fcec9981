import QueueBench.Proofs.RoundedArithmetic

set_option autoImplicit false

/- The shortest digits of a double. The search walks down the grids of powers of ten, and at the
latest where the points are closer than the cell is wide one of them lies in it. So the digits found
are few and stand for a number that rounds to the double. -/
namespace QueueBench.Decimal.Binary

open Double (InCell Canonical)

/-- Whether a point of the grid of multiples of `step` is between the ends of the cell, all taken
`scale` times. -/
def Meets (b : Binary) (scale step point : Nat) : Prop :=
  if b.mantissa % 2 = 0 then
    (4 * b.mantissa - if b.low then 1 else 2) * scale ≤ point * step ∧
      point * step ≤ (4 * b.mantissa + 2) * scale
  else
    (4 * b.mantissa - if b.low then 1 else 2) * scale < point * step ∧
      point * step < (4 * b.mantissa + 2) * scale

/-- The factor that makes the cell whole on a grid. -/
def scaleOf (b : Binary) (place : Int) : Nat :=
  Nat.pow 2 (b.exponent - 2).toNat * Nat.pow 10 (-place).toNat

/-- The distance of the points of a grid, taken with the same factor. -/
def stepOf (b : Binary) (place : Int) : Nat :=
  Nat.pow 10 place.toNat * Nat.pow 2 (-(b.exponent - 2)).toNat

variable {b : Binary} {tie : Tie} {place : Int}

theorem meets_iff {point : Nat} : (if b.mantissa % 2 = 0 then
      decide ((4 * b.mantissa - if b.low then 1 else 2) * b.scaleOf place ≤ point * b.stepOf place ∧
        point * b.stepOf place ≤ (4 * b.mantissa + 2) * b.scaleOf place)
    else
      decide ((4 * b.mantissa - if b.low then 1 else 2) * b.scaleOf place < point * b.stepOf place ∧
        point * b.stepOf place < (4 * b.mantissa + 2) * b.scaleOf place)) = true ↔
    b.Meets (b.scaleOf place) (b.stepOf place) point := by
  unfold Meets
  split <;> rw [decide_eq_true_iff]

theorem meets_of_onGrid? {point : Nat} (found : b.onGrid? tie place = some point) :
    b.Meets (b.scaleOf place) (b.stepOf place) point := by
  unfold onGrid? at found
  dsimp only at found
  split at found
  case h_1 below above =>
    have either : point = 4 * b.mantissa * b.scaleOf place / b.stepOf place ∨
        point = 4 * b.mantissa * b.scaleOf place / b.stepOf place + 1 := by
      split at found
      · exact .inl (Option.some.inj found).symm
      · split at found
        · exact .inr (Option.some.inj found).symm
        · split at found
          · exact .inr (Option.some.inj found).symm
          · split at found
            · exact .inl (Option.some.inj found).symm
            · exact .inr (Option.some.inj found).symm
    rcases either with rfl | rfl
    · exact meets_iff.mp below
    · exact meets_iff.mp above
  case h_2 below _ =>
    cases found
    exact meets_iff.mp below
  case h_3 _ above =>
    cases found
    exact meets_iff.mp above
  case h_4 => cases found

/-- The grid has a point in the cell if the point just below the double is in it. -/
theorem onGrid?_of_meets (meets : b.Meets (b.scaleOf place) (b.stepOf place)
    (4 * b.mantissa * b.scaleOf place / b.stepOf place)) :
    ∃ point, b.onGrid? tie place = some point := by
  cases found : b.onGrid? tie place with
  | some point => exact ⟨point, rfl⟩
  | none =>
    unfold onGrid? at found
    dsimp only at found
    split at found
    case h_1 =>
      split at found
      · cases found
      · split at found
        · cases found
        · split at found
          · cases found
          · split at found <;> cases found
    case h_2 => cases found
    case h_3 outside _ => exact absurd (meets_iff.mpr meets) (Bool.eq_false_iff.mp outside)
    case h_4 outside _ => exact absurd (meets_iff.mpr meets) (Bool.eq_false_iff.mp outside)

theorem step_eq_scale_mul (b : Binary) (place : Int) :
    (b.stepOf place : ℚ) = b.scaleOf place * (10 ^ place / 2 ^ (b.exponent - 2)) := by
  rw [Double.zpow_eq_div (by norm_num) place, Double.zpow_eq_div (by norm_num) (b.exponent - 2),
    scaleOf, stepOf, Nat.pow_eq, Nat.pow_eq, Nat.pow_eq, Nat.pow_eq]
  push_cast
  field_simp

theorem scaleOf_pos (b : Binary) (place : Int) : 0 < b.scaleOf place :=
  Nat.mul_pos (Nat.pow_pos (by decide)) (Nat.pow_pos (by decide))

theorem stepOf_pos (b : Binary) (place : Int) : 0 < b.stepOf place :=
  Nat.mul_pos (Nat.pow_pos (by decide)) (Nat.pow_pos (by decide))

theorem mul_scaleOf_le_iff {k point : Nat} : k * b.scaleOf place ≤ point * b.stepOf place ↔
    (k : ℚ) * 2 ^ (b.exponent - 2) ≤ point * 10 ^ place := by
  have unit : (0 : ℚ) < 2 ^ (b.exponent - 2) := zpow_pos (by norm_num) _
  have scale : (0 : ℚ) < b.scaleOf place := by exact_mod_cast b.scaleOf_pos place
  rw [← Nat.cast_le (α := ℚ), Nat.cast_mul, Nat.cast_mul, step_eq_scale_mul, mul_left_comm,
    mul_comm (b.scaleOf place : ℚ), mul_le_mul_iff_left₀ scale, ← mul_div_assoc, le_div_iff₀ unit]

theorem mul_stepOf_le_iff {k point : Nat} : point * b.stepOf place ≤ k * b.scaleOf place ↔
    (point : ℚ) * 10 ^ place ≤ k * 2 ^ (b.exponent - 2) := by
  have unit : (0 : ℚ) < 2 ^ (b.exponent - 2) := zpow_pos (by norm_num) _
  have scale : (0 : ℚ) < b.scaleOf place := by exact_mod_cast b.scaleOf_pos place
  rw [← Nat.cast_le (α := ℚ), Nat.cast_mul, Nat.cast_mul, step_eq_scale_mul, mul_left_comm,
    mul_comm (b.scaleOf place : ℚ), mul_le_mul_iff_left₀ scale, ← mul_div_assoc, div_le_iff₀ unit]

/-- Quarters of a unit make the ends of the cell whole. -/
theorem inCell_of_meets (some : 0 < b.mantissa) {point : Nat}
    (meets : b.Meets (b.scaleOf place) (b.stepOf place) point) : InCell b (point * 10 ^ place) := by
  have quarter : (2 : ℚ) ^ (b.exponent - 2) = 2 ^ b.exponent / 4 := by
    rw [zpow_sub₀ (by norm_num)]
    norm_num
  have bottom : ((4 * b.mantissa - if b.low then 1 else 2 : Nat) : ℚ) * 2 ^ (b.exponent - 2) =
      (b.mantissa - if b.low then 1 / 4 else 1 / 2) * 2 ^ b.exponent := by
    rw [quarter]
    split
    · rw [Nat.cast_sub (by omega)]
      push_cast
      ring
    · rw [Nat.cast_sub (by omega)]
      push_cast
      ring
  have top : ((4 * b.mantissa + 2 : Nat) : ℚ) * 2 ^ (b.exponent - 2) =
      (b.mantissa + 1 / 2) * 2 ^ b.exponent := by
    rw [quarter]
    push_cast
    ring
  unfold Meets at meets
  split at meets
  case isTrue even =>
    rw [mul_scaleOf_le_iff, mul_stepOf_le_iff, bottom, top] at meets
    exact ⟨meets.1, meets.2, fun odd => absurd odd (by omega)⟩
  case isFalse odd =>
    rw [← not_le, ← not_le, mul_scaleOf_le_iff, mul_stepOf_le_iff, bottom, top, not_le, not_le]
      at meets
    exact ⟨meets.1.le, meets.2.le, fun _ => meets⟩

/-- On a fine grid the point just below the double is in its cell. -/
theorem meets_of_fine (some : 0 < b.mantissa) (fine : 4 * (10 : ℚ) ^ place ≤ 2 ^ b.exponent) :
    b.Meets (b.scaleOf place) (b.stepOf place)
      (4 * b.mantissa * b.scaleOf place / b.stepOf place) := by
  have short : 1 * b.stepOf place ≤ 1 * b.scaleOf place := by
    rw [mul_stepOf_le_iff, zpow_sub₀ (by norm_num), Nat.cast_one, one_mul, one_mul,
      le_div_iff₀ (by norm_num)]
    linarith
  have scale := b.scaleOf_pos place
  have below := Nat.div_mul_le_self (4 * b.mantissa * b.scaleOf place) (b.stepOf place)
  have above := Nat.lt_div_mul_add (a := 4 * b.mantissa * b.scaleOf place) (b.stepOf_pos place)
  have bottom : (4 * b.mantissa - if b.low then 1 else 2) * b.scaleOf place + b.scaleOf place ≤
      4 * b.mantissa * b.scaleOf place := by
    rw [← Nat.succ_mul]
    exact Nat.mul_le_mul_right _ (by split <;> omega)
  have top : (4 * b.mantissa + 2) * b.scaleOf place =
      4 * b.mantissa * b.scaleOf place + 2 * b.scaleOf place := Nat.add_mul _ _ _
  unfold Meets
  split
  · exact ⟨by omega, by omega⟩
  · exact ⟨by omega, by omega⟩

theorem search_spec (b : Binary) (tie : Tie) {steps : Nat} {place : Int}
    (meets : ∃ k < steps, ∃ point, b.onGrid? tie (place - k) = some point) :
    ∃ point place', b.search tie steps place = (point, place') ∧
      b.onGrid? tie place' = some point ∧ place - steps < place' ∧ place' ≤ place := by
  induction steps generalizing place with
  | zero =>
    obtain ⟨k, none, -⟩ := meets
    cases none
  | succ steps ih =>
    rw [search]
    cases found : b.onGrid? tie place with
    | some point => exact ⟨point, place, rfl, found, by omega, Int.le_refl _⟩
    | none =>
      obtain ⟨k, less, point, later⟩ := meets
      cases k with
      | zero =>
        rw [Nat.cast_zero, sub_zero, found] at later
        cases later
      | succ k =>
        have next : place - ((k + 1 : Nat) : Int) = place - 1 - k := by omega
        rw [next] at later
        obtain ⟨point', place', same, found', above, below⟩ := ih ⟨k, by omega, point, later⟩
        exact ⟨point', place', same, found', by omega, by omega⟩

/-- How the power of ten from which the search starts compares with the power of two above the
double, for all powers of two that are near doubles. -/
theorem powers_compare : ∀ n : Fin 2100,
    let t : Int := (n : Int) - 1074
    let lead : Int := (t * 30103).fdiv 100000
    10 ^ lead.toNat * 2 ^ (-t).toNat ≤ 2 * (2 ^ t.toNat * 10 ^ (-lead).toNat) ∧
      2 ^ t.toNat * 10 ^ (-lead).toNat ≤ 100 * (10 ^ lead.toNat * 2 ^ (-t).toNat) := by
  decide +kernel

theorem powers_compare_rat {t : Int} (least : -1074 ≤ t) (most : t ≤ 1024) :
    (10 : ℚ) ^ (t * 30103).fdiv 100000 ≤ 2 * 2 ^ t ∧
      (2 : ℚ) ^ t ≤ 100 * 10 ^ (t * 30103).fdiv 100000 := by
  obtain ⟨upper, lower⟩ := powers_compare ⟨(t + 1074).toNat, by omega⟩
  have same : (((t + 1074).toNat : Nat) : Int) - 1074 = t := by omega
  dsimp only at upper lower
  rw [same] at upper lower
  generalize (t * 30103).fdiv 100000 = lead at upper lower
  rw [Double.zpow_eq_div (by norm_num) lead, Double.zpow_eq_div (by norm_num) t]
  constructor
  · rw [← mul_div_assoc, div_le_div_iff₀ (by positivity) (by positivity), mul_assoc]
    exact_mod_cast upper
  · rw [← mul_div_assoc, div_le_div_iff₀ (by positivity) (by positivity), mul_assoc]
    exact_mod_cast lower

/-- The shortest digits of a double stand for a number in its cell, and there are few of them. -/
theorem shortest_spec (tie : Tie) (canonical : Canonical b.mantissa b.exponent)
    (some : 0 < b.mantissa) : ∃ point place, b.shortest tie = (point, place) ∧
      InCell b (point * 10 ^ place) ∧ 0 < point ∧ point < 10 ^ 24 ∧ place.natAbs < 400 := by
  have inner : (b.mantissa.log2 : Int) ≤ 52 := by
    have := (Nat.log2_lt some.ne').mpr canonical.bits
    omega
  have range := powers_compare_rat (t := b.mantissa.log2 + 1 + b.exponent)
    (by have := canonical.least; omega) (by have := canonical.most; omega)
  have bounds : -330 ≤ (((b.mantissa.log2 : Int) + 1 + b.exponent) * 30103).fdiv 100000 ∧
      (((b.mantissa.log2 : Int) + 1 + b.exponent) * 30103).fdiv 100000 ≤ 330 := by
    have := canonical.least
    have := canonical.most
    rw [Int.fdiv_eq_ediv_of_nonneg _ (by norm_num)]
    omega
  generalize same : (((b.mantissa.log2 : Int) + 1 + b.exponent) * 30103).fdiv 100000 = lead
    at range bounds
  obtain ⟨upper, lower⟩ := range
  have fine : 4 * (10 : ℚ) ^ (lead - 22) ≤ 2 ^ b.exponent := by
    calc 4 * (10 : ℚ) ^ (lead - 22) = 4 / 10 ^ 22 * 10 ^ lead := by
          rw [zpow_sub₀ (by norm_num)]
          norm_num
          ring
      _ ≤ 4 / 10 ^ 22 * (2 * 2 ^ ((b.mantissa.log2 : Int) + 1 + b.exponent)) :=
        mul_le_mul_of_nonneg_left upper (by norm_num)
      _ ≤ 4 / 10 ^ 22 * (2 * 2 ^ (53 + b.exponent)) := by
        have := zpow_le_zpow_right₀ (a := (2 : ℚ)) (by norm_num)
          (show (b.mantissa.log2 : Int) + 1 + b.exponent ≤ 53 + b.exponent by omega)
        linarith
      _ = 8 * 2 ^ 53 / 10 ^ 22 * 2 ^ b.exponent := by
        rw [zpow_add₀ (by norm_num)]
        norm_num
        ring
      _ ≤ 2 ^ b.exponent :=
        mul_le_of_le_one_left (zpow_pos (by norm_num) _).le (by norm_num)
  have last : ∃ k < 24, ∃ point, b.onGrid? tie (lead + 1 - (k : Nat)) = .some point := by
    have grid : lead + 1 - ((23 : Nat) : Int) = lead - 22 := by omega
    refine ⟨23, by decide, ?_⟩
    rw [grid]
    exact onGrid?_of_meets (meets_of_fine some fine)
  obtain ⟨point, place, search, found, above, below⟩ := b.search_spec tie last
  have cell := inCell_of_meets some (meets_of_onGrid? found)
  refine ⟨point, place, ?_, cell, ?_, ?_, by omega⟩
  · rw [shortest, if_neg some.ne', same]
    exact search
  · rw [Nat.pos_iff_ne_zero]
    rintro rfl
    have positive := (cell.bounds canonical some).1
    rw [Nat.cast_zero, zero_mul] at positive
    exact absurd positive (not_lt_of_ge (zpow_pos (by norm_num) _).le)
  · have unit : (0 : ℚ) < 10 ^ place := zpow_pos (by norm_num) _
    have size : (point : ℚ) * 10 ^ place < 10 ^ 24 * 10 ^ place := by
      calc (point : ℚ) * 10 ^ place ≤ (b.mantissa + 1 / 2) * 2 ^ b.exponent := cell.top
        _ < 2 ^ ((b.mantissa.log2 : Int) + 1) * 2 ^ b.exponent := by
          have := Double.succ_le_zpow_log2 b.mantissa
          exact mul_lt_mul_of_pos_right (by linarith) (zpow_pos (by norm_num) _)
        _ = 2 ^ ((b.mantissa.log2 : Int) + 1 + b.exponent) := (zpow_add₀ (by norm_num) _ _).symm
        _ ≤ 100 * 10 ^ lead := lower
        _ ≤ 100 * 10 ^ (22 + place) := by
          have := zpow_le_zpow_right₀ (a := (10 : ℚ)) (by norm_num)
            (show lead ≤ 22 + place by omega)
          linarith
        _ = 10 ^ 24 * 10 ^ place := by
          rw [zpow_add₀ (by norm_num), ← mul_assoc]
          norm_num
    exact_mod_cast lt_of_mul_lt_mul_right size unit.le

end QueueBench.Decimal.Binary
