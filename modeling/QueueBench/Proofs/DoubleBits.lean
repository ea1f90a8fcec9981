import Mathlib
import QueueBench.Decimal.Shortest

set_option autoImplicit false

namespace QueueBench.Double

open Float.Model (Format)
open Float.Model.UnpackedFloat

theorem toNat_append {n m : Nat} (front : BitVec n) (back : BitVec m) :
    (front ++ back).toNat = front.toNat * 2 ^ m + back.toNat := by
  rw [BitVec.toNat_append, ← Nat.shiftLeft_add_eq_or_of_lt back.isLt, Nat.shiftLeft_eq]

theorem toNat_packComponents (sign : Sign) (field : BitVec 11) (fraction : BitVec 52) :
    (packComponents .binary64 sign field fraction).toNat =
      sign.toBitVec.toNat * 2 ^ 63 + field.toNat * 2 ^ 52 + fraction.toNat := by
  rw [packComponents, toNat_append]
  show (sign.toBitVec ++ field : BitVec 12).toNat * 2 ^ 52 + _ = _
  rw [toNat_append]
  ring

theorem toNat_unpackMantissa (bits : BitVec 64) :
    (@unpackMantissa .binary64 bits).toNat = bits.toNat % 2 ^ 52 := by
  simp [unpackMantissa]

theorem toNat_unpackExponent (bits : BitVec 64) :
    (@unpackExponent .binary64 bits).toNat = bits.toNat / 2 ^ 52 % 2 ^ 11 := by
  simp [unpackExponent, Nat.shiftRight_eq_div_pow]

theorem toNat_unpackSign (bits : BitVec 64) :
    (@unpackSign .binary64 bits).toNat = bits.toNat / 2 ^ 63 := by
  have := bits.isLt
  simp [unpackSign, Nat.shiftRight_eq_div_pow]
  omega

def field (x : Float) : Nat := x.toBits.toNat / 2 ^ 52 % 2 ^ 11

/-- The bits behind the leading one. -/
def fraction (x : Float) : Nat := x.toBits.toNat % 2 ^ 52

/-- The sign, which zeros have too. -/
def sign (x : Float) : Sign := if x.toBits.toNat < 2 ^ 63 then .positive else .negative

theorem field_lt (x : Float) : field x < 2 ^ 11 := Nat.mod_lt _ (by decide)

theorem fraction_lt (x : Float) : fraction x < 2 ^ 52 := Nat.mod_lt _ (by decide)

theorem unpackMantissa_eq (x : Float) :
    @unpackMantissa .binary64 x.toModel.toBits.toBitVec = BitVec.ofNat 52 (fraction x) := by
  apply BitVec.eq_of_toNat_eq
  rw [toNat_unpackMantissa]
  exact (Nat.mod_eq_of_lt (fraction_lt x)).symm

theorem unpackExponent_eq (x : Float) :
    @unpackExponent .binary64 x.toModel.toBits.toBitVec = BitVec.ofNat 11 (field x) := by
  apply BitVec.eq_of_toNat_eq
  rw [toNat_unpackExponent]
  exact (Nat.mod_eq_of_lt (field_lt x)).symm

theorem ofBitVec_unpackSign (x : Float) :
    Sign.ofBitVec (@unpackSign .binary64 x.toModel.toBits.toBitVec) = sign x := by
  have size := x.toBits.toNat_lt
  have top : (@unpackSign .binary64 x.toModel.toBits.toBitVec).toNat =
    x.toBits.toNat / 2 ^ 63 := toNat_unpackSign _
  unfold Sign.ofBitVec sign
  by_cases small : x.toBits.toNat < 2 ^ 63
  · rw [if_pos small, if_pos]
    apply BitVec.eq_of_toNat_eq
    rw [top, Nat.div_eq_of_lt small]
    rfl
  · rw [if_neg small, if_neg]
    intro none
    rw [none] at top
    have zero : (0#1).toNat = 0 := rfl
    omega

theorem finite_congr {sign : Sign} {m m' : Nat} {e e' : Int} (some : 0 < m) (some' : 0 < m')
    (mantissa : m = m') (exponent : e = e') :
    Float.Model.UnpackedFloat.finite sign m e some = .finite sign m' e' some' := by
  subst mantissa exponent
  rfl

theorem unpack_eq (x : Float) : x.toModel.unpack =
    if field x = 2047 then if fraction x = 0 then .infinity (sign x) else .notANumber
    else if field x = 0 then
      if some : fraction x = 0 then .zero (sign x)
      else .finite (sign x) (fraction x) (-1074) (Nat.pos_of_ne_zero some)
    else .finite (sign x) (fraction x + 2 ^ 52) (field x - 1075) (by omega) := by
  have top : BitVec.ofNat 11 (field x) = -1#11 ↔ field x = 2047 := by
    rw [← BitVec.toNat_inj, BitVec.toNat_ofNat, Nat.mod_eq_of_lt (field_lt x)]
    rfl
  have bottom : BitVec.ofNat 11 (field x) = 0#11 ↔ field x = 0 := by
    rw [← BitVec.toNat_inj, BitVec.toNat_ofNat, Nat.mod_eq_of_lt (field_lt x)]
    rfl
  have none : BitVec.ofNat 52 (fraction x) = 0#52 ↔ fraction x = 0 := by
    rw [← BitVec.toNat_inj, BitVec.toNat_ofNat, Nat.mod_eq_of_lt (fraction_lt x)]
    rfl
  have size : (BitVec.ofNat 52 (fraction x)).toNat = fraction x := by
    rw [BitVec.toNat_ofNat, Nat.mod_eq_of_lt (fraction_lt x)]
  have size' : (BitVec.ofNat 11 (field x)).toNat = field x := by
    rw [BitVec.toNat_ofNat, Nat.mod_eq_of_lt (field_lt x)]
  rw [Float.Model.unpack, Float.Model.UnpackedFloat.unpack]
  simp only [unpackMantissa_eq, unpackExponent_eq, ofBitVec_unpackSign, top, bottom, none]
  split
  case isTrue => rfl
  case isFalse =>
    split
    case isTrue low =>
      split
      case isTrue => rfl
      case isFalse =>
        refine finite_congr _ _ size ?_
        rw [size', low]
        rfl
    case isFalse =>
      refine finite_congr _ _ ?_ ?_
      · have one : (1#1).toNat = 1 := rfl
        rw [toNat_append, size, one, one_mul, add_comm]
      · rw [size']
        rfl

theorem isFinite_iff {x : Float} : x.isFinite = true ↔ field x ≠ 2047 := by
  show x.toModel.unpack.isFinite = true ↔ _
  rw [unpack_eq]
  split
  case isTrue top =>
    refine iff_of_false ?_ (not_not_intro top)
    split <;> nofun
  case isFalse below =>
    refine iff_of_true ?_ below
    split
    · split <;> rfl
    · rfl

open Decimal (Binary)

/-- A mantissa of at most 53 bits, all of them used unless the place is the least. -/
structure Canonical (m : Nat) (e : Int) : Prop where
  bits : m < 2 ^ 53
  least : -1074 ≤ e
  most : e ≤ 971
  full : e = -1074 ∨ 2 ^ 52 ≤ m

theorem ofBits_eq (x : Float) : Binary.ofBits x.toBits =
    if field x = 0 then ⟨fraction x, -1074, false⟩
    else ⟨fraction x + 2 ^ 52, field x - 1075, fraction x = 0 ∧ field x > 1⟩ := rfl

theorem canonical_ofBits {x : Float} (finite : x.isFinite = true) :
    Canonical (Binary.ofBits x.toBits).mantissa (Binary.ofBits x.toBits).exponent := by
  have below := isFinite_iff.mp finite
  have behind := fraction_lt x
  have range := field_lt x
  rw [ofBits_eq]
  split
  case isTrue => exact ⟨by dsimp only; omega, by norm_num, by norm_num, .inl rfl⟩
  case isFalse => exact ⟨by dsimp only; omega, by dsimp only; omega, by dsimp only; omega,
      .inr (by dsimp only; omega)⟩

theorem unpack_of_isFinite {x : Float} (finite : x.isFinite = true) : x.toModel.unpack =
    if some : (Binary.ofBits x.toBits).mantissa = 0 then .zero (sign x)
    else .finite (sign x) (Binary.ofBits x.toBits).mantissa (Binary.ofBits x.toBits).exponent
      (Nat.pos_of_ne_zero some) := by
  rw [unpack_eq, if_neg (isFinite_iff.mp finite)]
  simp only [ofBits_eq]
  split
  case isTrue => rfl
  case isFalse => rw [dif_neg (by dsimp only; omega)]

def ofUnpacked (u : Float.Model.UnpackedFloat) : Float := .ofModel (.pack u)

theorem toNat_ofUnpacked (u : Float.Model.UnpackedFloat) :
    (ofUnpacked u).toBits.toNat = (pack .binary64 u).toNat := rfl

section Parts

variable {m : Nat} {e : Int} (canonical : Canonical m e) (some : 0 < m) (s : Sign)
include canonical some

theorem log2_eq_iff : m.log2 + 1 = Format.binary64.mantissaBits ↔ 2 ^ 52 ≤ m := by
  have bits := canonical.bits
  have width : Format.binary64.mantissaBits = 52 + 1 := rfl
  rw [width, Nat.add_right_cancel_iff, Nat.log2_eq_iff (by omega)]
  exact and_iff_left bits

theorem toNat_pack : (pack .binary64 (.finite s m e some)).toNat = s.toBitVec.toNat * 2 ^ 63 +
    if 2 ^ 52 ≤ m then (e + 1075).toNat * 2 ^ 52 + (m - 2 ^ 52) else m := by
  obtain ⟨bits, least, most, full⟩ := canonical
  have width : Format.binary64.mantissaBitsWithoutImplicit = 52 := rfl
  have biased : e + (Format.binary64.exponentBias : Int) +
      (Format.binary64.mantissaBitsWithoutImplicit : Int) = e + 1075 := by
    rw [show (Format.binary64.exponentBias : Int) = 1023 from rfl]
    omega
  rw [pack]
  dsimp only
  rw [biased, if_neg (by rw [show 2 ^ Format.binary64.exponentBits = 2048 from rfl]; omega)]
  by_cases normal : 2 ^ 52 ≤ m
  · rw [if_pos ((log2_eq_iff ⟨bits, least, most, full⟩ some).mpr normal), if_pos normal,
      toNat_packComponents, BitVec.toNat_ofNat, BitVec.toNat_ofNat]
    omega
  · rw [if_neg (mt (log2_eq_iff ⟨bits, least, most, full⟩ some).mp normal), if_neg normal,
      toNat_packComponents, BitVec.toNat_ofNat, BitVec.toNat_ofNat]
    omega

theorem parts_ofUnpacked : sign (ofUnpacked (.finite s m e some)) = s ∧
    field (ofUnpacked (.finite s m e some)) = (if 2 ^ 52 ≤ m then (e + 1075).toNat else 0) ∧
    fraction (ofUnpacked (.finite s m e some)) = if 2 ^ 52 ≤ m then m - 2 ^ 52 else m := by
  have bits := toNat_pack canonical some s
  obtain ⟨width, least, most, full⟩ := canonical
  unfold sign field fraction
  rw [toNat_ofUnpacked, bits]
  cases s with
  | positive =>
    rw [show Sign.positive.toBitVec.toNat = 0 from rfl]
    refine ⟨if_pos ?_, ?_, ?_⟩ <;> split <;> omega
  | negative =>
    rw [show Sign.negative.toBitVec.toNat = 1 from rfl]
    refine ⟨if_neg ?_, ?_, ?_⟩ <;> split <;> omega

theorem unpack_ofUnpacked :
    (ofUnpacked (.finite s m e some)).toModel.unpack = .finite s m e some := by
  obtain ⟨same, exponent, behind⟩ := parts_ofUnpacked canonical some s
  obtain ⟨width, least, most, full⟩ := canonical
  rw [unpack_eq]
  by_cases normal : 2 ^ 52 ≤ m
  · rw [if_pos normal] at exponent behind
    simp only [same, exponent, behind]
    rw [if_neg (by omega), if_neg (by omega)]
    exact finite_congr _ _ (by omega) (by omega)
  · rw [if_neg normal] at exponent behind
    simp only [same, exponent, behind]
    rw [if_neg (by omega), if_pos trivial, dif_neg (by omega)]
    exact finite_congr _ _ rfl (by omega)

end Parts

end QueueBench.Double
