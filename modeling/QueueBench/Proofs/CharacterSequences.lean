import Mathlib.Algebra.Group.Nat.Defs
import QueueBench.Text.Utf8

set_option autoImplicit false

namespace QueueBench.Text.Utf8

theorem eq_ofNat_of_toNat {b : UInt8} {n : Nat} (same : b.toNat = n) : b = UInt8.ofNat n := by
  rw [← same, UInt8.ofNat_toNat]

theorem toNat_val_ofNat {v : Nat} (valid : v.isValidChar) : (Char.ofNat v).val.toNat = v := by
  unfold Char.ofNat
  rw [dif_pos valid]
  rfl

/-- The last bytes of the sequence of a code point, `count` of them. -/
def trail (v : Nat) : (count : Nat) → List UInt8
  | 0 => []
  | count + 1 => UInt8.ofNat (v / 64 ^ count % 64 + 0x80) :: trail v count

theorem trail_of_pos (v : Nat) {count : Nat} (some : 1 ≤ count) :
    trail v count =
      UInt8.ofNat (v / 64 ^ (count - 1) % 64 + 0x80) :: trail v (count - 1) := by
  obtain ⟨fewer, rfl⟩ := Nat.exists_eq_add_of_le' some
  rfl

theorem le_toNat_of_mem_trail {v count : Nat} {b : UInt8} (member : b ∈ trail v count) :
    0x80 ≤ b.toNat := by
  induction count with
  | zero => cases member
  | succ count ih =>
    rcases List.mem_cons.mp member with rfl | later
    · rw [UInt8.toNat_ofNat']
      omega
    · exact ih later

theorem encodeChar_one {v : Nat} (upper : v < 0x80) :
    String.utf8EncodeChar (Char.ofNat v) = [UInt8.ofNat v] := by
  have valid : v.isValidChar := Or.inl (by omega)
  unfold String.utf8EncodeChar
  simp only [toNat_val_ofNat valid]
  rw [if_pos (by omega)]

theorem encodeChar_two {v : Nat} (lower : 0x80 ≤ v) (upper : v < 0x800) :
    String.utf8EncodeChar (Char.ofNat v) = UInt8.ofNat (v / 64 + 0xC0) :: trail v 1 := by
  have valid : v.isValidChar := Or.inl (by omega)
  have small : v / 64 < 0x20 := by omega
  unfold String.utf8EncodeChar
  simp only [toNat_val_ofNat valid]
  rw [if_neg (by omega), if_pos (by omega), Nat.mod_eq_of_lt small]
  simp only [trail, Nat.pow_zero, Nat.div_one]

theorem encodeChar_three {v : Nat} (valid : v.isValidChar) (lower : 0x800 ≤ v)
    (upper : v < 0x10000) :
    String.utf8EncodeChar (Char.ofNat v) = UInt8.ofNat (v / 4096 + 0xE0) :: trail v 2 := by
  have small : v / 4096 < 0x10 := by omega
  unfold String.utf8EncodeChar
  simp only [toNat_val_ofNat valid]
  rw [if_neg (by omega), if_neg (by omega), if_pos (by omega), Nat.mod_eq_of_lt small]
  simp only [trail, Nat.pow_zero, Nat.div_one, Nat.pow_one]

theorem encodeChar_four {v : Nat} (lower : 0x10000 ≤ v) (upper : v < 0x110000) :
    String.utf8EncodeChar (Char.ofNat v) = UInt8.ofNat (v / 262144 + 0xF0) :: trail v 3 := by
  have valid : v.isValidChar := Or.inr (by omega)
  have small : v / 262144 < 0x08 := by omega
  unfold String.utf8EncodeChar
  simp only [toNat_val_ofNat valid]
  rw [if_neg (by omega), if_neg (by omega), if_neg (by omega), Nat.mod_eq_of_lt small]
  simp only [trail, Nat.pow_zero, Nat.div_one, Nat.pow_one, Nat.reducePow]

/-- The bytes still owed can lead to a code point. Only the range of the next byte matters here; the
bytes after it may be any. -/
def Partial.Covers (p : Partial) (v : Nat) : Prop :=
  p.value * 64 + p.low.toNat ≤ v / 64 ^ (p.owed - 1) + 0x80 ∧
    v / 64 ^ (p.owed - 1) + 0x80 ≤ p.value * 64 + p.high.toNat

/-- A sequence that the bytes of `front` have opened: whatever code point it can lead to is encoded
by `front` and the bytes owed. -/
structure Partial.Opened (p : Partial) (front : List UInt8) : Prop where
  owed : 1 ≤ p.owed
  low : 0x80 ≤ p.low.toNat
  high : p.high.toNat ≤ 0xBF
  leads : ∀ v, p.Covers v → v.isValidChar ∧
    String.utf8EncodeChar (Char.ofNat v) = front ++ trail v p.owed

section Leads

variable {b low high : UInt8} {value : Nat} (above : 0x80 ≤ low.toNat) (below : high.toNat ≤ 0xBF)
include above below

theorem opened_two (byte : b.toNat = value + 0xC0) (least : 2 ≤ value) (most : value < 0x20) :
    Partial.Opened ⟨value, 1, low, high⟩ [b] := by
  refine ⟨Nat.le_refl 1, above, below, ?_⟩
  intro v covers
  simp only [Partial.Covers, Nat.sub_self, Nat.pow_zero, Nat.div_one] at covers
  have valid : v.isValidChar := Or.inl (by omega)
  have first : b = UInt8.ofNat (v / 64 + 0xC0) := eq_ofNat_of_toNat (by omega)
  refine ⟨valid, ?_⟩
  rw [encodeChar_two (by omega) (by omega), ← first, List.singleton_append]

/-- Three bytes are for neither a shorter code point nor a surrogate. -/
theorem opened_three (byte : b.toNat = value + 0xE0) (most : value < 0x10)
    (least : 0xA0 ≤ value * 64 + low.toNat)
    (apart : value * 64 + high.toNat < 0x3E0 ∨ 0x400 ≤ value * 64 + low.toNat) :
    Partial.Opened ⟨value, 2, low, high⟩ [b] := by
  refine ⟨Nat.le_succ 1, above, below, ?_⟩
  intro v covers
  simp only [Partial.Covers, Nat.reduceSub, Nat.pow_one] at covers
  have valid : v.isValidChar := by
    unfold Nat.isValidChar
    omega
  have first : b = UInt8.ofNat (v / 4096 + 0xE0) := eq_ofNat_of_toNat (by omega)
  refine ⟨valid, ?_⟩
  rw [encodeChar_three valid (by omega) (by omega), ← first, List.singleton_append]

theorem opened_four (byte : b.toNat = value + 0xF0) (least : 0x90 ≤ value * 64 + low.toNat)
    (most : value * 64 + high.toNat < 0x190) : Partial.Opened ⟨value, 3, low, high⟩ [b] := by
  refine ⟨Nat.le_add_left 1 2, above, below, ?_⟩
  intro v covers
  simp only [Partial.Covers, Nat.reduceSub, Nat.reducePow] at covers
  have valid : v.isValidChar := Or.inr (by omega)
  have first : b = UInt8.ofNat (v / 262144 + 0xF0) := eq_ofNat_of_toNat (by omega)
  refine ⟨valid, ?_⟩
  rw [encodeChar_four (by omega) (by omega), ← first, List.singleton_append]

end Leads

theorem lead_char {b : UInt8} {c : Char} (led : lead b = .char c) :
    b.toNat < 0x80 ∧ c = Char.ofNat b.toNat := by
  unfold lead at led
  split at led
  · rename_i below
    exact ⟨below, (Lead.char.inj led).symm⟩
  · repeat' split at led
    all_goals cases led

theorem lead_below {b : UInt8} (below : b.toNat < 0x80) : lead b = .char (Char.ofNat b.toNat) := by
  unfold lead
  rw [if_pos (UInt8.lt_iff_toNat_lt.mpr below)]

theorem lead_opened {b : UInt8} {p : Partial} (led : lead b = .sequence p) : p.Opened [b] := by
  have byte := b.toNat_lt
  unfold lead at led
  simp only [UInt8.lt_iff_toNat_lt, ← UInt8.toNat_inj, UInt8.reduceToNat] at led
  -- One case for each kind of lead byte, in the order of the bytes.
  split at led
  · cases led
  split at led
  · cases led
  split at led
  · cases led
    exact opened_two (by decide) (by decide) (by omega) (by omega) (by omega)
  split at led
  · cases led
    exact opened_three (by decide) (by decide) (by omega) (by decide) (by decide) (by decide)
  split at led
  · cases led
    exact opened_three (by decide) (by decide) (by omega) (by decide) (by decide) (by decide)
  split at led
  · cases led
    have below : b.toNat % 16 < 0x10 := by omega
    exact opened_three (by decide) (by decide) (by omega) below (by simp; omega) (by simp; omega)
  split at led
  · cases led
    exact opened_four (by decide) (by decide) (by omega) (by decide) (by decide)
  split at led
  · cases led
    exact opened_four (by decide) (by decide) (by omega) (by simp; omega) (by simp; omega)
  split at led
  · cases led
    exact opened_four (by decide) (by decide) (by omega) (by decide) (by decide)
  · cases led

theorem lead_two {b : UInt8} {value : Nat} (byte : b.toNat = value + 0xC0) (least : 2 ≤ value)
    (most : value < 0x20) : lead b = .sequence ⟨value, 1, 0x80, 0xBF⟩ := by
  have low : b.toNat % 32 = value := by omega
  unfold lead
  simp only [UInt8.lt_iff_toNat_lt, ← UInt8.toNat_inj, UInt8.reduceToNat]
  rw [if_neg (by omega), if_neg (by omega), if_pos (by omega), low]

theorem lead_three {b : UInt8} {value : Nat} (byte : b.toNat = value + 0xE0)
    (most : value < 0x10) :
    lead b = .sequence
      ⟨value, 2, if value = 0 then 0xA0 else 0x80, if value = 13 then 0x9F else 0xBF⟩ := by
  have low : b.toNat % 16 = value := by omega
  unfold lead
  simp only [UInt8.lt_iff_toNat_lt, ← UInt8.toNat_inj, UInt8.reduceToNat]
  rw [if_neg (by omega), if_neg (by omega), if_neg (by omega)]
  by_cases shortest : value = 0
  · subst shortest
    rw [if_pos (by omega)]
    rfl
  · rw [if_neg (by omega), if_neg shortest]
    by_cases surrogates : value = 13
    · subst surrogates
      rw [if_pos (by omega)]
      rfl
    · rw [if_neg (by omega), if_neg surrogates, if_pos (by omega), low]

theorem lead_four {b : UInt8} {value : Nat} (byte : b.toNat = value + 0xF0) (most : value < 5) :
    lead b = .sequence
      ⟨value, 3, if value = 0 then 0x90 else 0x80, if value = 4 then 0x8F else 0xBF⟩ := by
  have low : b.toNat % 8 = value := by omega
  unfold lead
  simp only [UInt8.lt_iff_toNat_lt, ← UInt8.toNat_inj, UInt8.reduceToNat]
  rw [if_neg (by omega), if_neg (by omega), if_neg (by omega), if_neg (by omega),
    if_neg (by omega), if_neg (by omega)]
  by_cases shortest : value = 0
  · subst shortest
    rw [if_pos (by omega)]
    rfl
  · rw [if_neg (by omega), if_neg shortest]
    by_cases last : value = 4
    · subst last
      rw [if_neg (by omega), if_pos (by omega)]
      rfl
    · rw [if_pos (by omega), if_neg last, low]

/-- Every character of more than one byte has a lead byte that covers it. -/
theorem exists_lead {v : Nat} (valid : v.isValidChar) (wide : 0x80 ≤ v) :
    ∃ b p, lead b = .sequence p ∧ p.Covers v := by
  have bound : v < 0xD800 ∨ 0xDFFF < v ∧ v < 0x110000 := valid
  by_cases two : v < 0x800
  · have byte : (UInt8.ofNat (v / 64 + 0xC0)).toNat = v / 64 + 0xC0 := by
      rw [UInt8.toNat_ofNat']
      omega
    refine ⟨_, _, lead_two byte (by omega) (by omega), ?_⟩
    simp only [Partial.Covers, UInt8.reduceToNat, Nat.sub_self, Nat.pow_zero]
    omega
  by_cases three : v < 0x10000
  · have byte : (UInt8.ofNat (v / 4096 + 0xE0)).toNat = v / 4096 + 0xE0 := by
      rw [UInt8.toNat_ofNat']
      omega
    refine ⟨_, _, lead_three byte (by omega), ?_⟩
    simp only [Partial.Covers, Nat.reduceSub, Nat.pow_one]
    split <;> split <;> simp only [UInt8.reduceToNat] <;> omega
  · have byte : (UInt8.ofNat (v / 262144 + 0xF0)).toNat = v / 262144 + 0xF0 := by
      rw [UInt8.toNat_ofNat']
      omega
    refine ⟨_, _, lead_four byte (by omega), ?_⟩
    simp only [Partial.Covers, Nat.reduceSub, Nat.reducePow]
    split <;> split <;> simp only [UInt8.reduceToNat] <;> omega

/-- A character is a byte below `0x80`, or all its bytes are from there on. -/
theorem encodeChar_cases (c : Char) :
    c.toNat < 0x80 ∧ String.utf8EncodeChar c = [UInt8.ofNat c.toNat] ∨
      ∀ b ∈ String.utf8EncodeChar c, 0x80 ≤ b.toNat := by
  by_cases narrow : c.toNat < 0x80
  · have alone := encodeChar_one narrow
    rw [Char.ofNat_toNat] at alone
    exact Or.inl ⟨narrow, alone⟩
  · obtain ⟨first, p, led, covers⟩ := exists_lead c.valid (Nat.le_of_not_lt narrow)
    have encoded := ((lead_opened led).leads _ covers).2
    rw [show Char.ofNat c.val.toNat = c from Char.ofNat_toNat c] at encoded
    have high : 0x80 ≤ first.toNat := by
      apply Nat.le_of_not_lt
      intro low
      rw [lead_below low] at led
      cases led
    right
    intro b member
    rw [encoded] at member
    rcases List.mem_cons.mp member with rfl | later
    · exact high
    · exact le_toNat_of_mem_trail later

end QueueBench.Text.Utf8
