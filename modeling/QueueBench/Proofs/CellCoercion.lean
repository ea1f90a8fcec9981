import Mathlib.Algebra.Ring.Int.Defs
import QueueBench.Cell
import QueueBench.Proofs.DigitRuns
import QueueBench.Proofs.TextPieces

set_option autoImplicit false

namespace QueueBench.Cell

open Decimal (DenotesInteger signedDigits)
open Text (Trims isBlank trim)

theorem holdsSigned_iff {i : Int} : Word.holdsSigned 63 i = true ↔ -2 ^ 63 ≤ i ∧ i < 2 ^ 63 := by
  have bound : Word.bound 63 = 2 ^ 63 := rfl
  simp only [Word.holdsSigned, bound, Bool.and_eq_true, decide_eq_true_eq]
  omega

theorem integer?_eq_some_iff {cs : List Char} {n : Int64} :
    integer? cs = some n ↔ DenotesInteger cs n.toInt := by
  have lower := n.le_toInt
  have upper := n.toInt_lt
  unfold integer?
  constructor
  · intro read
    split at read
    case h_1 i whole =>
      by_cases holds : Word.holdsSigned 63 i = true
      · obtain ⟨least, most⟩ := holdsSigned_iff.mp holds
        rw [if_pos holds, Option.some.injEq] at read
        rw [← read, Int64.toInt_ofInt_of_le least most]
        exact (Decimal.denotes_of_integerBelow? whole).1
      · rw [if_neg holds] at read
        cases read
    case h_2 => cases read
  · intro denotes
    have small : n.toInt.natAbs < Word.bound 64 := by
      have bound : Word.bound 64 = 2 ^ 64 := rfl
      omega
    have holds : Word.holdsSigned 63 n.toInt = true := holdsSigned_iff.mpr ⟨lower, upper⟩
    rw [Decimal.integerBelow?_of_denotes denotes small]
    dsimp only
    rw [if_pos holds, Int64.ofInt_toInt]

/-- An integer out of range is none, so its text stays. -/
theorem integer?_eq_none_iff {cs : List Char} :
    integer? cs = none ↔ ∀ i, DenotesInteger cs i → ¬ (-2 ^ 63 ≤ i ∧ i ≤ 2 ^ 63 - 1) := by
  constructor
  · intro none i denotes range
    have value : (Int64.ofInt i).toInt = i := Int64.toInt_ofInt_of_le range.1 (by omega)
    rw [← value] at denotes
    rw [integer?_eq_some_iff.mpr denotes] at none
    cases none
  · intro outside
    apply Option.eq_none_iff_forall_ne_some.mpr
    intro n read
    have upper := n.toInt_lt
    exact outside n.toInt (integer?_eq_some_iff.mp read) ⟨n.le_toInt, by omega⟩

theorem solid_of_denotesInteger {cs : List Char} {i : Int} (denotes : DenotesInteger cs i) :
    ∀ c ∈ cs, isBlank c = false := by
  have digits : ∀ {run : List Char} {n : Nat}, Decimal.Denotes run n →
      ∀ c ∈ run, isBlank c = false := fun run c member =>
    Text.isBlank_of_isDigit ((Decimal.isNumeral_iff.mp run.numeral).2 c member)
  cases denotes with
  | unsigned run => exact digits run
  | plus run => exact List.forall_mem_cons.mpr ⟨by decide, digits run⟩
  | minus run => exact List.forall_mem_cons.mpr ⟨by decide, digits run⟩

/-- Coerces a text to a kind of number that has a zero and a way of reading. -/
def coerce (zero : Cell) (number? : List Char → Option Cell) (raw : String) : Cell :=
  if trim raw.toList = [] then zero else (number? (trim raw.toList)).getD (.text raw)

theorem coerceInteger_eq :
    coerceInteger = coerce (.integer 0) fun cs => (integer? cs).map integer := by
  funext raw
  unfold coerceInteger coerce
  simp only [List.isEmpty_iff]
  cases integer? (trim raw.toList) <;> rfl

theorem coerceDouble_eq :
    coerceDouble = coerce (.double 0) fun cs => (Decimal.double? cs).map double := by
  funext raw
  unfold coerceDouble coerce
  simp only [List.isEmpty_iff]
  cases Decimal.double? (trim raw.toList) <;> rfl

section Coerce

variable {zero : Cell} {number? : List Char → Option Cell}

/-- A text is coerced to zero, to the number that its core is, or to itself. -/
theorem coerce_cases (zero : Cell) (number? : List Char → Option Cell) (raw : String) :
    coerce zero number? raw = zero ∨ number? (trim raw.toList) = some (coerce zero number? raw) ∨
      coerce zero number? raw = .text raw := by
  unfold coerce
  by_cases blank : trim raw.toList = []
  · rw [if_pos blank]
    exact .inl rfl
  · rw [if_neg blank]
    cases number? (trim raw.toList) with
    | none => exact .inr (.inr rfl)
    | some c => exact .inr (.inl rfl)

/-- What a number is read as is a number. -/
structure IsNumeric (zero : Cell) (number? : List Char → Option Cell) : Prop where
  zero : zero.isText = false
  number : ∀ cs c, number? cs = some c → c.isText = false

/-- The only text that coercion gives is the one that it was given, and it gives that of a text
that is neither blank nor a number. -/
theorem coerce_eq_text_iff (numeric : IsNumeric zero number?) {raw s : String} :
    coerce zero number? raw = .text s ↔
      s = raw ∧ trim raw.toList ≠ [] ∧ number? (trim raw.toList) = none := by
  have apart : ∀ c : Cell, c.isText = false → c ≠ .text s := by
    intro c number same
    rw [same] at number
    cases number
  unfold coerce
  by_cases blank : trim raw.toList = []
  · rw [if_pos blank]
    exact iff_of_false (apart zero numeric.zero) (fun kept => kept.2.1 blank)
  · rw [if_neg blank]
    cases read : number? (trim raw.toList) with
    | none =>
      rw [Option.getD_none, text.injEq]
      exact ⟨fun same => ⟨same.symm, blank, rfl⟩, fun kept => kept.1.symm⟩
    | some c =>
      refine iff_of_false (apart c (numeric.number _ c read)) ?_
      intro kept
      cases kept.2.2

theorem coerce_text (numeric : IsNumeric zero number?) {raw s : String}
    (kept : coerce zero number? raw = .text s) : s = raw ∧ coerce zero number? s = .text s := by
  have same := ((coerce_eq_text_iff numeric).mp kept).1
  rw [← same] at kept
  exact ⟨same, kept⟩

end Coerce

theorem isNumeric_integer : IsNumeric (.integer 0) fun cs => (integer? cs).map integer := by
  constructor
  · rfl
  · intro cs c read
    obtain ⟨i, -, rfl⟩ := Option.map_eq_some_iff.mp read
    rfl

theorem isNumeric_double : IsNumeric (.double 0) fun cs => (Decimal.double? cs).map double := by
  constructor
  · rfl
  · intro cs c read
    obtain ⟨x, -, rfl⟩ := Option.map_eq_some_iff.mp read
    rfl

theorem coerceInteger_eq_integer_iff {raw : String} {n : Int64} :
    coerceInteger raw = .integer n ↔
      trim raw.toList = [] ∧ n = 0 ∨ DenotesInteger (trim raw.toList) n.toInt := by
  rw [coerceInteger_eq, ← integer?_eq_some_iff]
  unfold coerce
  by_cases blank : trim raw.toList = []
  · have silent : integer? [] ≠ some n := nofun
    rw [if_pos blank, blank, or_iff_left silent, integer.injEq, eq_comm]
    exact (and_iff_right rfl).symm
  · rw [if_neg blank, or_iff_right (fun empty => blank empty.1)]
    dsimp only
    cases integer? (trim raw.toList) with
    | none => simp only [Option.map_none, Option.getD_none, reduceCtorEq]
    | some i => simp only [Option.map_some, Option.getD_some, integer.injEq, Option.some.injEq]

theorem coerceInteger_eq_text_iff {raw : String} :
    coerceInteger raw = .text raw ↔
      trim raw.toList ≠ [] ∧
        ∀ i, DenotesInteger (trim raw.toList) i → ¬ (-2 ^ 63 ≤ i ∧ i ≤ 2 ^ 63 - 1) := by
  rw [coerceInteger_eq, coerce_eq_text_iff isNumeric_integer, Option.map_eq_none_iff,
    integer?_eq_none_iff]
  exact and_iff_right rfl

theorem coerceDouble_eq_text_iff {raw : String} :
    coerceDouble raw = .text raw ↔
      trim raw.toList ≠ [] ∧ Decimal.double? (trim raw.toList) = none := by
  rw [coerceDouble_eq, coerce_eq_text_iff isNumeric_double, Option.map_eq_none_iff]
  exact and_iff_right rfl

theorem coerceInteger_cases (raw : String) :
    (∃ n, coerceInteger raw = .integer n) ∨ coerceInteger raw = .text raw := by
  rw [coerceInteger_eq]
  rcases coerce_cases (.integer 0) (fun cs => (integer? cs).map integer) raw with
    zero | number | kept
  · exact .inl ⟨0, zero⟩
  · obtain ⟨n, -, same⟩ := Option.map_eq_some_iff.mp number
    exact .inl ⟨n, same.symm⟩
  · exact .inr kept

theorem coerceDouble_cases (raw : String) :
    (∃ x, coerceDouble raw = .double x) ∨ coerceDouble raw = .text raw := by
  rw [coerceDouble_eq]
  rcases coerce_cases (.double 0) (fun cs => (Decimal.double? cs).map double) raw with
    zero | number | kept
  · exact .inl ⟨0, zero⟩
  · obtain ⟨x, -, same⟩ := Option.map_eq_some_iff.mp number
    exact .inl ⟨x, same.symm⟩
  · exact .inr kept

theorem coerceInteger_padded {raw : String} {lead trail : List Char} {n : Int64}
    (blank : ∀ c ∈ lead ++ trail, isBlank c = true)
    (padded : raw.toList = lead ++ signedDigits n.toInt ++ trail) :
    coerceInteger raw = .integer n := by
  have denotes := Decimal.denotesInteger_signedDigits n.toInt
  have trims : Trims raw.toList (signedDigits n.toInt) := by
    rw [padded]
    exact Text.trims_padded (solid_of_denotesInteger denotes) blank
  apply coerceInteger_eq_integer_iff.mpr
  rw [Text.trim_eq_of_trims trims]
  exact .inr denotes

/-- A cell of an integer column is read as an integer just if what is left of it without the blanks
around it is empty, which counts as zero, or is at most one sign and digits that denote an integer
of 64 bits; otherwise it is its own text, blanks included. So every integer that is written out is
read back, with any blanks around it. A cell of a column of doubles is a double or its own text, and
the text that a cell of either kind keeps stays as it is when it is read again. -/
theorem coercion_is_exact (raw : String) :
    Trims raw.toList (trim raw.toList) ∧
    let core := trim raw.toList
    (∀ n, coerceInteger raw = .integer n ↔ core = [] ∧ n = 0 ∨ DenotesInteger core n.toInt) ∧
    (coerceInteger raw = .text raw ↔ ∀ n, coerceInteger raw ≠ .integer n) ∧
    (coerceInteger raw = .text raw ↔
      core ≠ [] ∧ ∀ i, DenotesInteger core i → ¬ (-2 ^ 63 ≤ i ∧ i ≤ 2 ^ 63 - 1)) ∧
    (∀ (n : Int64) (lead trail : List Char), (∀ c ∈ lead ++ trail, isBlank c = true) →
      raw.toList = lead ++ signedDigits n.toInt ++ trail → coerceInteger raw = .integer n) ∧
    (coerceDouble raw = .text raw ↔ ∀ x, coerceDouble raw ≠ .double x) ∧
    (coerceDouble raw = .text raw ↔ core ≠ [] ∧ Decimal.double? core = none) ∧
    ∀ read ∈ [coerceInteger, coerceDouble], ∀ s, read raw = .text s →
      s = raw ∧ read s = .text s := by
  refine ⟨Text.trims_trim raw.toList, fun n => coerceInteger_eq_integer_iff, ?integerOrText,
    coerceInteger_eq_text_iff, fun n lead trail => coerceInteger_padded, ?doubleOrText,
    coerceDouble_eq_text_iff, ?again⟩
  case integerOrText =>
    constructor
    · intro kept n read
      rw [kept] at read
      cases read
    · intro none
      exact (coerceInteger_cases raw).resolve_left fun ⟨n, read⟩ => none n read
  case doubleOrText =>
    constructor
    · intro kept x read
      rw [kept] at read
      cases read
    · intro none
      exact (coerceDouble_cases raw).resolve_left fun ⟨x, read⟩ => none x read
  case again =>
    intro read member s kept
    simp only [List.mem_cons, List.not_mem_nil, or_false] at member
    rcases member with rfl | rfl
    · rw [coerceInteger_eq] at kept ⊢
      exact coerce_text isNumeric_integer kept
    · rw [coerceDouble_eq] at kept ⊢
      exact coerce_text isNumeric_double kept

/-- The least integer with blanks around it, and a number with a comma in it. -/
theorem coercion_is_exact_least :
    let least := "\u2003-9223372036854775808\t"
    (∀ c ∈ ['\u2003'] ++ ['\t'], isBlank c = true) ∧
      least.toList = ['\u2003'] ++ signedDigits Int64.minValue.toInt ++ ['\t'] ∧
      coerceInteger least = .integer Int64.minValue ∧
      coerceInteger "12,5 " = .text "12,5 " ∧ coerceDouble "12,5 " = .text "12,5 " := by
  intro least
  have blank : ∀ c ∈ ['\u2003'] ++ ['\t'], isBlank c = true := by
    apply List.all_eq_true.mp
    decide
  have written : least.toList = ['\u2003'] ++ signedDigits Int64.minValue.toInt ++ ['\t'] := by
    decide +kernel
  have kept : coerceInteger "12,5 " = .text "12,5 " := by decide +kernel
  have keptDouble : coerceDouble "12,5 " = .text "12,5 " := by decide +kernel
  obtain ⟨-, -, -, -, padded, -⟩ := coercion_is_exact least
  obtain ⟨-, -, -, -, -, -, -, again⟩ := coercion_is_exact "12,5 "
  exact ⟨blank, written, padded Int64.minValue _ _ blank written,
    (again coerceInteger (by simp only [List.mem_cons, true_or]) _ kept).2,
    (again coerceDouble (by simp only [List.mem_cons, true_or, or_true]) _ keptDouble).2⟩

end QueueBench.Cell
