import QueueBench.Proofs.ApproximateDoubles
import QueueBench.Proofs.ShortestDigits
import QueueBench.Proofs.WrittenNumbers

set_option autoImplicit false

/- Written doubles that are read. A layout puts the point among the digits, pads them with zeros or
adds an exponent, and a reader makes a double of the same number. -/
namespace QueueBench

open Text.Utf8 (encode encode_append encode_cons)

namespace Decimal

theorem ofDigits_append_zeros (cs : List Char) (zeros : Nat) :
    ofDigits (cs ++ List.replicate zeros '0') = ofDigits cs * 10 ^ zeros := by
  unfold ofDigits
  rw [Nat.ofDigitChars_append, Nat.ofDigitChars_replicate_zero, Nat.mul_comm]

end Decimal

namespace Json.Reader

section Parts

variable {ds : List Char} (digits : ∀ c ∈ ds, c.isDigit) {rest : Bytes}
  (other : ∀ b ∈ rest.head?, isDigit b = false)
include digits other

theorem takeWhile_encode : (encode ds ++ rest).takeWhile isDigit = encode ds := by
  have all : ∀ b ∈ encode ds, isDigit b := fun _ => isDigit_of_mem_encode digits
  rw [List.takeWhile_append_of_pos all]
  cases rest with
  | nil => rw [List.takeWhile_nil, List.append_nil]
  | cons b more => rw [List.takeWhile_cons_of_neg (by simp [other b rfl]), List.append_nil]

theorem dropWhile_encode : (encode ds ++ rest).dropWhile isDigit = rest := by
  have all : ∀ b ∈ encode ds, isDigit b := fun _ => isDigit_of_mem_encode digits
  rw [List.dropWhile_append_of_pos all]
  cases rest with
  | nil => rw [List.dropWhile_nil]
  | cons b more => rw [List.dropWhile_cons_of_neg (by simp [other b rfl])]

end Parts

/-- The written places after the point, if there are any. -/
def writtenPlaces (after : List Char) : List Char := if after = [] then [] else '.' :: after

def writtenExponent : Option Int → List Char
  | none => []
  | some power => 'e' :: (if power < 0 then '-' else '+') :: Decimal.digits power.natAbs

theorem writtenExponent_other (power : Option Int) :
    ∀ b ∈ (encode (writtenExponent power)).head?, isDigit b = false ∧ ¬ IsPoint b := by
  intro b head
  cases power with
  | none => cases head
  | some p =>
    rw [writtenExponent, encode_cons] at head
    cases head
    exact ⟨by decide, by unfold IsPoint; decide⟩

theorem writtenPlaces_other (after : List Char) (power : Option Int) :
    ∀ b ∈ (encode (writtenPlaces after ++ writtenExponent power)).head?, isDigit b = false := by
  intro b head
  unfold writtenPlaces at head
  split at head
  · exact (writtenExponent_other power b head).1
  · rw [List.cons_append, encode_cons] at head
    cases head
    rfl

theorem places_written {after : List Char} (digits : ∀ c ∈ after, c.isDigit) (power : Option Int) :
    places (encode (writtenPlaces after ++ writtenExponent power)) =
      .ok (if after = [] then none else some (encode after), encode (writtenExponent power)) := by
  have other := writtenExponent_other power
  unfold writtenPlaces
  split
  case isTrue none =>
    rw [List.nil_append]
    exact places_other fun b head => (other b head).2
  case isFalse nonempty =>
    have digit : ∀ b ∈ (encode (writtenExponent power)).head?, isDigit b = false :=
      fun b head => (other b head).1
    refine places_eq_ok.mpr (.inr ⟨0x2E, encode after ++ encode (writtenExponent power), ?_, rfl,
      ?_, ?_, ?_⟩)
    · rw [List.cons_append, encode_cons, encode_append]
      rfl
    · rw [takeWhile_encode digits digit]
      exact encode_digits_ne_nil digits nonempty
    · rw [takeWhile_encode digits digit]
    · rw [dropWhile_encode digits digit]

theorem exponent_written {power : Option Int} (near : ∀ p ∈ power, p.natAbs < exponentBound) :
    exponent (encode (writtenExponent power)) = .ok (power, []) := by
  cases power with
  | none => rfl
  | some p =>
    have digits : ∀ c ∈ Decimal.digits p.natAbs, c.isDigit := fun _ => Decimal.isDigit_of_mem_digits
    have taken := @takeWhile_encode _ digits [] nofun
    have dropped := @dropWhile_encode _ digits [] nofun
    rw [List.append_nil] at taken dropped
    have size : Decimal.ofDigitsUpTo exponentBound (Decimal.digits p.natAbs) = p.natAbs :=
      (Decimal.ofDigitsUpTo_eq_iff (near p rfl) _).mpr (Decimal.ofDigits_digits _)
    have front : sign (encode ((if p < 0 then '-' else '+') :: Decimal.digits p.natAbs)) =
        (decide (p < 0), encode (Decimal.digits p.natAbs)) := by
      rw [encode_cons]
      split
      case isTrue minus =>
        rw [decide_eq_true minus]
        rfl
      case isFalse plus =>
        rw [decide_eq_false plus]
        rfl
    refine exponent_eq_ok.mpr (.inr ⟨0x65,
      encode ((if p < 0 then '-' else '+') :: Decimal.digits p.natAbs), ?_, .inl rfl, ?_, ?_, ?_⟩)
    · rw [writtenExponent, encode_cons]
      rfl
    · rw [front, taken]
      exact encode_digits_ne_nil digits (Decimal.digits_ne_nil _)
    · rw [front, taken, charsOfDigits_encode digits, size, Decimal.signed]
      split
      case isTrue minus =>
        have := of_decide_eq_true minus
        rw [show -(p.natAbs : Int) = p by omega]
      case isFalse plus =>
        have := of_decide_eq_false (Bool.eq_false_iff.mpr plus)
        rw [show (p.natAbs : Int) = p by omega]
    · rw [front, dropped]

/-- A double is read from its digits before and after the point and its exponent. -/
theorem number_written {front after : List Char} {power : Option Int}
    (digits : ∀ c ∈ front ++ after, c.isDigit) (nonempty : front ≠ [])
    (single : ¬ (front.head? = some '0' ∧ 1 < front.length))
    (near : ∀ p ∈ power, p.natAbs < exponentBound) (fraction : after ≠ [] ∨ power.isSome)
    (finite : (Decimal.approximate false front after (power.getD 0)).isFinite = true) :
    number false (encode (front ++ (writtenPlaces after ++ writtenExponent power))) =
      .ok (.double (Decimal.approximate false front after (power.getD 0)), []) := by
  have before : ∀ c ∈ front, c.isDigit := fun c member => digits c (List.mem_append_left _ member)
  have behind : ∀ c ∈ after, c.isDigit := fun c member => digits c (List.mem_append_right _ member)
  have other := writtenPlaces_other after power
  rw [encode_append]
  refine number_eq_ok.mpr ⟨encode front, _, _, _, power, whole_eq_ok.mpr ⟨?_, ?_, ?_, ?_⟩,
    places_written behind power, exponent_written near, ?_, finite⟩
  · rw [takeWhile_encode before other]
  · rw [dropWhile_encode before other]
  · exact encode_digits_ne_nil before nonempty
  · rw [length_encode_digits before]
    refine fun both => single ⟨head?_of_encode_digits before ?_, both.2⟩
    rw [← both.1, List.head?_append_of_ne_nil _ (encode_digits_ne_nil before nonempty)]
  · -- both options are not empty at once, so the number is no integer
    split
    case isTrue none =>
      subst none
      obtain ⟨p, rfl⟩ := Option.isSome_iff_exists.mp (fraction.resolve_left fun ne => ne rfl)
      unfold assemble
      dsimp only
      rw [charsOfDigits_encode before, Option.getD_none]
      rfl
    case isFalse =>
      unfold assemble
      dsimp only
      rw [charsOfDigits_encode before, Option.getD_some, charsOfDigits_encode behind]

end Json.Reader

namespace Decimal

open Json.Reader (writtenPlaces writtenExponent)

/-- A text that is read as a double: digits before and after a point and an exponent, which stand for
a number. -/
structure Spells (text : List Char) (v : ℚ) (front after : List Char) (power : Option Int) :
    Prop where
  shape : text = front ++ (writtenPlaces after ++ writtenExponent power)
  digits : ∀ c ∈ front ++ after, c.isDigit
  nonempty : front ≠ []
  single : ¬ (front.head? = some '0' ∧ 1 < front.length)
  near : ∀ p ∈ power, p.natAbs < Json.Reader.exponentBound
  fraction : after ≠ [] ∨ power.isSome
  few : front.length < 20
  value : (ofDigits (front ++ after) : ℚ) * 10 ^ (power.getD 0 - (after.length : Int)) = v

section Layouts

variable {point : Nat} {place : Int}

theorem length_digits_pos (n : Nat) : 0 < (digits n).length :=
  List.length_pos_iff.mpr (digits_ne_nil n)

theorem isDigit_of_mem_replicate {n : Nat} {c : Char} (member : c ∈ List.replicate n '0') :
    c.isDigit = true := by
  rw [List.eq_of_mem_replicate member]
  rfl

/-- Digits behind the point. -/
theorem spells_behind (low : place + (digits point).length - 1 < 0) :
    ∃ after, Spells (placed true (digits point) (place + (digits point).length - 1))
      (point * 10 ^ place) ['0'] after none := by
  have long := length_digits_pos point
  refine ⟨List.replicate (-(place + (digits point).length - 1) - 1).toNat '0' ++ digits point,
    ?_, ?_, List.cons_ne_nil _ _, fun both => absurd both.2 (by decide), nofun, .inl ?_, ?_, ?_⟩
  · rw [placed, if_pos low, writtenPlaces, if_neg, writtenExponent, List.append_nil]
    · rfl
    · exact List.append_ne_nil_of_right_ne_nil _ (digits_ne_nil point)
  · intro c member
    rcases List.mem_append.mp member with zero | member
    · rw [List.mem_singleton.mp zero]
      rfl
    · rcases List.mem_append.mp member with zero | digit
      · exact isDigit_of_mem_replicate zero
      · exact isDigit_of_mem_digits digit
  · exact List.append_ne_nil_of_right_ne_nil _ (digits_ne_nil point)
  · exact (by decide : 1 < 20)
  · have run : ['0'] ++ (List.replicate (-(place + (digits point).length - 1) - 1).toNat '0' ++
        digits point) = List.replicate ((-(place + (digits point).length - 1) - 1).toNat + 1) '0' ++
          digits point := rfl
    rw [run, ofDigits_zeros, ofDigits_digits, List.length_append, List.length_replicate]
    congr 2
    rw [Option.getD_none]
    omega

section Placed

variable (positive : 0 < point) (high : ¬ place + (digits point).length - 1 < 0)
  (few : place + (digits point).length - 1 < 19)
include positive high few

/-- Digits before the point, with the zeros up to it. -/
theorem spells_before
    (whole : (digits point).length ≤ (place + (digits point).length - 1).toNat + 1) :
    ∃ front, Spells (placed true (digits point) (place + (digits point).length - 1))
      (point * 10 ^ place) front ['0'] none := by
  have long := length_digits_pos point
  obtain ⟨zeros, same⟩ : ∃ zeros : Nat, place = zeros := ⟨place.toNat, by omega⟩
  have count : (place + (digits point).length - 1).toNat + 1 - (digits point).length = zeros := by
    omega
  refine ⟨digits point ++ List.replicate zeros '0', ?_, ?_, ?_, ?_, nofun, .inl (by decide), ?_, ?_⟩
  · rw [placed, if_neg high]
    dsimp only
    rw [if_pos whole, count, if_pos rfl, writtenPlaces, if_neg (by decide), writtenExponent,
      List.append_nil]
  · intro c member
    rcases List.mem_append.mp member with member | zero
    · rcases List.mem_append.mp member with digit | zero
      · exact isDigit_of_mem_digits digit
      · exact isDigit_of_mem_replicate zero
    · rw [List.mem_singleton.mp zero]
      rfl
  · exact List.append_ne_nil_of_left_ne_nil (digits_ne_nil point) _
  · rintro ⟨zero, -⟩
    rw [List.head?_append_of_ne_nil _ (digits_ne_nil point)] at zero
    exact head?_digits positive zero
  · rw [List.length_append, List.length_replicate]
    omega
  · have run : digits point ++ List.replicate zeros '0' ++ ['0'] =
        digits point ++ List.replicate (zeros + 1) '0' := by
      rw [List.replicate_succ', List.append_assoc]
    have unit : (10 : ℚ) ≠ 0 := by norm_num
    rw [run, ofDigits_append_zeros, ofDigits_digits, Option.getD_none, List.length_singleton, same,
      zero_sub, Nat.cast_mul, Nat.cast_pow, Nat.cast_ofNat, mul_assoc, ← zpow_natCast,
      ← zpow_add₀ unit]
    congr 2
    push_cast
    omega

/-- Digits on both sides of the point. -/
theorem spells_around
    (part : ¬ (digits point).length ≤ (place + (digits point).length - 1).toNat + 1) :
    ∃ front after, Spells (placed true (digits point) (place + (digits point).length - 1))
      (point * 10 ^ place) front after none := by
  generalize same : (place + (digits point).length - 1).toNat + 1 = whole at part
  have least : 0 < whole := by omega
  have all := List.take_append_drop whole (digits point)
  refine ⟨(digits point).take whole, (digits point).drop whole, ?_, ?_, ?_, ?_, nofun, .inl ?_, ?_, ?_⟩
  · rw [placed, if_neg high]
    dsimp only
    rw [same, if_neg part, writtenPlaces, if_neg, writtenExponent, List.append_nil]
    exact fun none => part (List.drop_eq_nil_iff.mp none)
  · rw [all]
    exact fun _ => isDigit_of_mem_digits
  · exact List.ne_nil_of_length_pos (by rw [List.length_take]; omega)
  · rintro ⟨zero, -⟩
    rw [List.head?_take, if_neg (by omega)] at zero
    exact head?_digits positive zero
  · exact fun none => part (List.drop_eq_nil_iff.mp none)
  · rw [List.length_take]
    omega
  · rw [all, ofDigits_digits, Option.getD_none, List.length_drop]
    congr 2
    omega

end Placed

theorem spells_placed (positive : 0 < point) (few : place + (digits point).length - 1 < 19) :
    ∃ front after, Spells (placed true (digits point) (place + (digits point).length - 1))
      (point * 10 ^ place) front after none := by
  by_cases low : place + (digits point).length - 1 < 0
  · obtain ⟨after, spells⟩ := spells_behind low
    exact ⟨_, after, spells⟩
  · by_cases whole : (digits point).length ≤ (place + (digits point).length - 1).toNat + 1
    · obtain ⟨front, spells⟩ := spells_before positive low few whole
      exact ⟨front, _, spells⟩
    · exact spells_around positive low few whole

theorem spells_scientific (small : point < 10 ^ 24) (near : place.natAbs < 400) :
    ∃ front after power, Spells
      (scientific (digits point) (place + (digits point).length - 1)) (point * 10 ^ place)
      front after power := by
  have short : (digits point).length ≤ 24 :=
    (Nat.length_toDigits_le_iff (by decide) (by decide)).mpr small
  have all := ofDigits_digits point
  have digit : ∀ c ∈ digits point, c.isDigit := fun _ => isDigit_of_mem_digits
  obtain ⟨d, rest, shape⟩ := List.exists_cons_of_ne_nil (digits_ne_nil point)
  rw [shape] at short all digit ⊢
  refine ⟨[d], rest, some (place + (d :: rest).length - 1), ?_, digit, List.cons_ne_nil _ _, ?_, ?_,
    .inr rfl, (by decide : 1 < 20), ?_⟩
  · cases rest with
    | nil => rfl
    | cons e rest => rfl
  · exact fun both => absurd both.2 (Nat.lt_irrefl 1)
  · intro p same
    cases same
    have bound : Json.Reader.exponentBound = 2 ^ 31 := rfl
    omega
  · rw [List.singleton_append, all, Option.getD_some, List.length_cons]
    congr 2
    push_cast
    omega

/-- However a layout is chosen, it spells the digits at their place, if it has no long run of digits
before the point. -/
theorem spells_layout (positive : 0 < point) (small : point < 10 ^ 24) (near : place.natAbs < 400)
    (style : Layout) (shows : style.pointZero = true)
    (few : ∀ lead, style.positional lead = true → lead < 19) :
    ∃ front after power, Spells
      (if style.positional (place + (digits point).length - 1) then
        placed style.pointZero (digits point) (place + (digits point).length - 1)
      else scientific (digits point) (place + (digits point).length - 1))
      (point * 10 ^ place) front after power := by
  rw [shows]
  split
  case isTrue positional =>
    obtain ⟨front, after, spells⟩ := spells_placed positive (few _ positional)
    exact ⟨front, after, _, spells⟩
  case isFalse => exact spells_scientific small near

end Layouts

end Decimal

namespace Json

open Decimal (Binary Spells)
open Double

/-- A text that spells a number far from the end of the range is read as a finite double. -/
theorem numberRun_of_spells {text front after : List Char} {v : ℚ} {power : Option Int}
    (spells : Spells text v front after power) (small : v ≤ 2 ^ (1020 : Int)) :
    ∃ y : Float, y.isFinite = true ∧ Reader.NumberRun (encode text) (.double y) [] := by
  obtain ⟨rfl, digits, nonempty, single, near, fraction, few, rfl⟩ := spells
  have before : ∀ c ∈ front, c.isDigit := fun c member => digits c (List.mem_append_left _ member)
  have finite := Decimal.isFinite_approximate before few small
  have read := Reader.number_written digits nonempty single near fraction finite
  refine ⟨_, finite, ?_⟩
  obtain ⟨ds, u, -, -, -, whole, -⟩ := Reader.number_eq_ok.mp read
  obtain ⟨rfl, -, some, -⟩ := Reader.whole_eq_ok.mp whole
  cases shape : encode (front ++ (Reader.writtenPlaces after ++ Reader.writtenExponent power)) with
  | nil => exact absurd (by rw [shape]; rfl) some
  | cons b s =>
    rw [shape] at read some
    refine .digit ?_ read
    by_contra other
    exact some (List.takeWhile_cons_of_neg other)

theorem text_zero : (Number.double (ofUnpacked (.zero .positive))).text = ['0', '.', '0'] := by
  rfl

theorem spells_zero : Spells ['0', '.', '0'] 0 ['0'] ['0'] none where
  shape := rfl
  digits := fun _ member => Decimal.isDigit_of_mem_replicate (n := 2) member
  nonempty := List.cons_ne_nil _ _
  single := by decide
  near := nofun
  fraction := .inl (List.cons_ne_nil _ _)
  few := by decide
  value := by simp [Decimal.ofDigits, Nat.ofDigitChars_cons]

/-- The text of a positive double spells a number in its cell. -/
theorem spells_text {x : Float} (positive : Positive x) : ∃ v front after power,
    Spells (Number.double x).text v front after power ∧ InCell (Binary.ofBits x.toBits) v := by
  obtain ⟨point, place, shortest, cell, some, small, near⟩ :=
    Binary.shortest_spec .toEven (canonical_ofBits positive.finite) positive.some
  have plus : x.toBits.toNat < Word.bound 63 := by
    by_contra minus
    have negative : Double.sign x = .negative := if_neg minus
    rw [positive.sign] at negative
    cases negative
  have few : ∀ lead, numberLayout.positional lead = true → lead < 19 := by
    intro lead positional
    have most := (Bool.and_eq_true_iff.mp positional).2
    rw [decide_eq_true_iff] at most
    omega
  obtain ⟨front, after, power, spells⟩ :=
    Decimal.spells_layout some small near numberLayout rfl few
  refine ⟨_, front, after, power, ?_, cell⟩
  rw [Number.text, Decimal.Layout.finite, show numberLayout.tie = .toEven from rfl, shortest]
  dsimp only
  rw [if_pos plus]
  exact spells

theorem top_le {x : Float} (positive : Positive x) {v : ℚ}
    (cell : InCell (Binary.ofBits x.toBits) v) : v ≤ 2 * (Binary.ofBits x.toBits).value := by
  have some : (1 : ℚ) ≤ (Binary.ofBits x.toBits).mantissa := by exact_mod_cast positive.some
  have unit : (0 : ℚ) < 2 ^ (Binary.ofBits x.toBits).exponent := zpow_pos (by norm_num) _
  calc v ≤ ((Binary.ofBits x.toBits).mantissa + 1 / 2) * 2 ^ (Binary.ofBits x.toBits).exponent :=
        cell.top
    _ ≤ 2 * (Binary.ofBits x.toBits).mantissa * 2 ^ (Binary.ofBits x.toBits).exponent :=
        mul_le_mul_of_nonneg_right (by linarith) unit.le
    _ = 2 * (Binary.ofBits x.toBits).value := mul_assoc _ _ _

/-- A moderate double is read from its text as a finite double, though not always as itself. -/
theorem exists_numberRun {x : Float} (moderate : Moderate x) (finite : x.isFinite = true) :
    ∃ y : Float, y.isFinite = true ∧
      Reader.NumberRun (encode (Number.double x).text) (.double y) [] := by
  obtain ⟨nonNegative, small⟩ := moderate finite
  cases nonNegative with
  | zero same =>
    rw [same, text_zero]
    exact numberRun_of_spells spells_zero (zpow_pos (by norm_num) _).le
  | positive positive =>
    obtain ⟨v, front, after, power, spells, cell⟩ := spells_text positive
    apply numberRun_of_spells spells
    calc v ≤ 2 * (Binary.ofBits x.toBits).value := top_le positive cell
      _ ≤ 2 ^ (1 : Int) * 2 ^ (1005 : Int) := by
          rw [zpow_one]
          exact mul_le_mul_of_nonneg_left small (by norm_num)
      _ = 2 ^ (1006 : Int) := by
          rw [← zpow_add₀ (by norm_num)]
          norm_num
      _ ≤ 2 ^ (1020 : Int) := zpow_le_zpow_right₀ (by norm_num) (by norm_num)

theorem reread_eq {x y : Float}
    (run : Reader.NumberRun (encode (Number.double x).text) (.double y) []) : reread x = y := by
  unfold reread
  rw [Reader.parse_of_numberRun run]

theorem reread_of_readsBack {x : Float} (readsBack : ReadsBack x) : reread x = x := by
  unfold ReadsBack at readsBack
  unfold reread
  rw [readsBack]

theorem numberRun_reread {x : Float} (moderate : Moderate x) (finite : x.isFinite = true) :
    Reader.NumberRun (encode (Number.double x).text) (.double (reread x)) [] := by
  obtain ⟨y, -, run⟩ := exists_numberRun moderate finite
  rwa [reread_eq run]

theorem isFinite_reread {x : Float} (moderate : Moderate x) (finite : x.isFinite = true) :
    (reread x).isFinite = true := by
  obtain ⟨y, inRange, run⟩ := exists_numberRun moderate finite
  rwa [reread_eq run]

-- Seventeen digits are rounded to a double before the power of ten is, so the last place may differ.
example : reread 187.46019333333334 = 187.46019333333336 := by decide +kernel

end Json

end QueueBench
