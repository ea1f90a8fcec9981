import QueueBench.Json.Printer
import QueueBench.Proofs.Containers
import QueueBench.Proofs.TextEncoding
import QueueBench.Proofs.ValueRuns

set_option autoImplicit false

namespace QueueBench

open Text.Utf8 (encode encode_append)

namespace Json.Reader

/-- Bytes that do not go on with a number. -/
def Ends (rest : Bytes) : Prop := ∀ b ∈ rest.head?, isDigit b = false ∧ ¬ IsPoint b ∧ ¬ IsMark b

theorem ends_nil : Ends [] := by
  intro b head
  cases head

theorem ends_cons {b : UInt8} (other : isDigit b = false ∧ ¬ IsPoint b ∧ ¬ IsMark b)
    (rest : Bytes) : Ends (b :: rest) := by
  intro c head
  cases head
  exact other

section Append

variable {rest : Bytes} (ends : Ends rest)
include ends

theorem takeWhile_append_ends (s : Bytes) :
    (s ++ rest).takeWhile isDigit = s.takeWhile isDigit := by
  induction s with
  | nil =>
    cases rest with
    | nil => rfl
    | cons b more => exact List.takeWhile_cons_of_neg (by simp [(ends b rfl).1])
  | cons b s ih => rw [List.cons_append, List.takeWhile_cons, List.takeWhile_cons, ih]

theorem dropWhile_append_ends (s : Bytes) :
    (s ++ rest).dropWhile isDigit = s.dropWhile isDigit ++ rest := by
  induction s with
  | nil =>
    cases rest with
    | nil => rfl
    | cons b more => exact List.dropWhile_cons_of_neg (by simp [(ends b rfl).1])
  | cons b s ih =>
    rw [List.cons_append, List.dropWhile_cons, List.dropWhile_cons, ih]
    split <;> rfl

theorem whole_append {s t ds : Bytes} (read : whole s = .ok (ds, t)) :
    whole (s ++ rest) = .ok (ds, t ++ rest) := by
  obtain ⟨rfl, rfl, nonempty, single⟩ := whole_eq_ok.mp read
  refine whole_eq_ok.mpr ⟨(takeWhile_append_ends ends s).symm, (dropWhile_append_ends ends s).symm,
    nonempty, ?_⟩
  rw [List.head?_append_of_ne_nil]
  · exact single
  · rintro rfl
    exact nonempty rfl

theorem places_append {s t : Bytes} {fraction : Option Bytes}
    (read : places s = .ok (fraction, t)) : places (s ++ rest) = .ok (fraction, t ++ rest) := by
  refine places_eq_ok.mpr ?_
  rcases places_eq_ok.mp read with ⟨other, rfl, rfl⟩ | ⟨b, r, rfl, point, some, rfl, rfl⟩
  · refine .inl ⟨fun b head => ?_, rfl, rfl⟩
    cases t with
    | nil => exact (ends b head).2.1
    | cons c t => exact other b head
  · refine .inr ⟨b, r ++ rest, rfl, point, ?_, ?_, (dropWhile_append_ends ends r).symm⟩
    · rwa [takeWhile_append_ends ends]
    · rw [takeWhile_append_ends ends]

omit ends in
theorem sign_append {s : Bytes} (some : s ≠ []) :
    sign (s ++ rest) = ((sign s).1, (sign s).2 ++ rest) := by
  match s, some with
  | b :: s, _ =>
    rw [List.cons_append]
    unfold sign
    grind

theorem exponent_append {s t : Bytes} {power : Option Int} (read : exponent s = .ok (power, t)) :
    exponent (s ++ rest) = .ok (power, t ++ rest) := by
  refine exponent_eq_ok.mpr ?_
  rcases exponent_eq_ok.mp read with ⟨other, rfl, rfl⟩ | ⟨b, r, rfl, mark, some, rfl, rfl⟩
  · refine .inl ⟨fun b head => ?_, rfl, rfl⟩
    cases t with
    | nil => exact (ends b head).2.2
    | cons c t => exact other b head
  · have front : sign (r ++ rest) = ((sign r).1, (sign r).2 ++ rest) := by
      refine sign_append ?_
      rintro rfl
      exact some rfl
    refine .inr ⟨b, r ++ rest, rfl, mark, ?_, ?_, ?_⟩
    · rwa [front, takeWhile_append_ends ends]
    · rw [front, takeWhile_append_ends ends]
    · rw [front, dropWhile_append_ends ends]

/-- A number is read apart from what follows it. -/
theorem number_append {minus : Bool} {s t : Bytes} {n : Number}
    (read : number minus s = .ok (n, t)) : number minus (s ++ rest) = .ok (n, t ++ rest) := by
  obtain ⟨ds, u, fraction, v, power, integer, point, mark, whole, finite⟩ := number_eq_ok.mp read
  exact number_eq_ok.mpr ⟨ds, u ++ rest, fraction, v ++ rest, power, whole_append ends integer,
    places_append ends point, exponent_append ends mark, whole, finite⟩

end Append

theorem toNat_of_isDigit {c : Char} (digit : c.isDigit) : 0x30 ≤ c.toNat ∧ c.toNat ≤ 0x39 := by
  rw [Char.isDigit, Bool.and_eq_true, decide_eq_true_eq, decide_eq_true_eq] at digit
  exact digit

theorem isDigit_byte {c : Char} (digit : c.isDigit) : isDigit (UInt8.ofNat c.toNat) := by
  have size := toNat_of_isDigit digit
  rw [isDigit, Bool.and_eq_true, decide_eq_true_eq, decide_eq_true_eq, UInt8.le_iff_toNat_le,
    UInt8.le_iff_toNat_le, UInt8.toNat_ofNat', Nat.mod_eq_of_lt (by omega)]
  exact size

section Digits

variable {ds : List Char} (digits : ∀ c ∈ ds, c.isDigit)
include digits

theorem encode_digits : encode ds = ds.map fun c => UInt8.ofNat c.toNat := by
  induction ds with
  | nil => rfl
  | cons c ds ih =>
    have size := toNat_of_isDigit (digits c List.mem_cons_self)
    rw [Text.Utf8.encode_cons, Text.Utf8.encodeChar_narrow (by omega),
      ih fun d member => digits d (List.mem_cons_of_mem c member)]
    rfl

theorem charsOfDigits_encode : charsOfDigits (encode ds) = ds := by
  rw [encode_digits digits, charsOfDigits, List.map_map]
  conv_rhs => rw [← List.map_id ds]
  refine List.map_congr_left fun c member => ?_
  have size := toNat_of_isDigit (digits c member)
  rw [Function.comp_apply, UInt8.toNat_ofNat', Nat.mod_eq_of_lt (by omega), Char.ofNat_toNat]
  rfl

theorem length_encode_digits : (encode ds).length = ds.length := by
  rw [encode_digits digits, List.length_map]

theorem encode_digits_ne_nil (nonempty : ds ≠ []) : encode ds ≠ [] := by
  rw [encode_digits digits]
  exact fun empty => nonempty (List.map_eq_nil_iff.mp empty)

theorem head?_of_encode_digits (zero : (encode ds).head? = some 0x30) : ds.head? = some '0' := by
  rw [encode_digits digits, List.head?_map, Option.map_eq_some_iff] at zero
  obtain ⟨c, head, byte⟩ := zero
  have size := toNat_of_isDigit (digits c (List.mem_of_mem_head? head))
  rw [← UInt8.toNat_inj, UInt8.toNat_ofNat', Nat.mod_eq_of_lt (by omega)] at byte
  have same : c = '0' := Char.toNat_inj.mp byte
  rw [head, same]

theorem isDigit_of_mem_encode {b : UInt8} (member : b ∈ encode ds) : isDigit b := by
  rw [encode_digits digits, List.mem_map] at member
  obtain ⟨c, member, rfl⟩ := member
  exact isDigit_byte (digits c member)

end Digits

end Json.Reader

/-- The numeral of a positive number does not begin with a zero. -/
theorem Decimal.head?_digits {n : Nat} (positive : 0 < n) :
    (Decimal.digits n).head? ≠ some '0' := by
  unfold digits
  induction n using Nat.strongRecOn with
  | _ n ih =>
    rw [Nat.toDigits_eq_if (by decide)]
    split
    case isTrue small =>
      have apart : ∀ d < 10, 0 < d → d.digitChar ≠ '0' := by decide
      exact fun zero => apart n small positive (Option.some.inj zero)
    case isFalse large =>
      rw [List.head?_append_of_ne_nil _ Nat.toDigits_ne_nil]
      exact ih (n / 10) (by omega) (by omega)

namespace Json.Reader

theorem whole_digits (n : Nat) : whole (encode (Decimal.digits n)) =
    .ok (encode (Decimal.digits n), []) := by
  have digits : ∀ c ∈ Decimal.digits n, c.isDigit := fun _ => Decimal.isDigit_of_mem_digits
  have all : ∀ b ∈ encode (Decimal.digits n), isDigit b := fun _ => isDigit_of_mem_encode digits
  refine whole_eq_ok.mpr ⟨(List.takeWhile_eq_self_iff.mpr all).symm,
    (List.dropWhile_eq_nil_iff.mpr all).symm, ?_, ?_⟩
  · exact encode_digits_ne_nil digits (Decimal.digits_ne_nil n)
  · rintro ⟨zero, several⟩
    rcases Nat.eq_zero_or_pos n with rfl | positive
    · exact absurd several (by decide)
    · exact Decimal.head?_digits positive (head?_of_encode_digits digits zero)

/-- The digits of a number are read as an integer. -/
theorem number_digits {minus : Bool} {n : Nat}
    (inRange : InRange (integerNumber minus (Decimal.digits n))) :
    number minus (encode (Decimal.digits n)) =
      .ok (integerNumber minus (Decimal.digits n), []) := by
  refine number_eq_ok.mpr ⟨_, [], none, [], none, whole_digits n, rfl, rfl, ?_, inRange⟩
  rw [assemble, charsOfDigits_encode fun _ => Decimal.isDigit_of_mem_digits]

theorem number_natural (n : UInt64) :
    number false (encode (Decimal.digits n.toNat)) = .ok (.natural n, []) := by
  have small : n.toNat < Word.bound 64 := n.toNat_lt
  have whole : integerNumber false (Decimal.digits n.toNat) = .natural n := by
    simp [integerNumber, Decimal.natBelow?_digits small]
  have read := @number_digits false n.toNat (by rw [whole]; trivial)
  rwa [whole] at read

theorem number_negative {i : Int64} (negative : i < 0) :
    number true (encode (Decimal.digits i.toInt.natAbs)) = .ok (.negative i, []) := by
  have below : i.toInt < 0 := Int64.lt_iff_toInt_lt.mp negative
  have least := i.le_toInt
  have size : i.toInt.natAbs ≤ Word.bound 63 := by
    have bound : Word.bound 63 = 2 ^ 63 := rfl
    omega
  have small : i.toInt.natAbs < Word.bound 64 := by
    have bounds : Word.bound 63 < Word.bound 64 := by decide
    omega
  have whole : integerNumber true (Decimal.digits i.toInt.natAbs) = .negative i := by
    have signed : -(i.toInt.natAbs : Int) = i.toInt := by omega
    have proper : 0 < i.toInt.natAbs ∧ i.toInt.natAbs ≤ Word.bound 63 := ⟨by omega, size⟩
    simp only [integerNumber, Decimal.natBelow?_digits small, ↓reduceIte, proper, and_self, signed,
      Int64.ofInt_toInt]
  have read := @number_digits true i.toInt.natAbs (by rw [whole]; trivial)
  rwa [whole] at read

end Json.Reader

namespace Decimal

/-- Whether a letter occurs in written numbers. -/
def IsNumeric (c : Char) : Prop := c.isDigit ∨ c = '.' ∨ c = 'e' ∨ c = '+' ∨ c = '-'

theorem isNumeric_digits {n : Nat} {c : Char} (member : c ∈ digits n) : IsNumeric c :=
  .inl (isDigit_of_mem_digits member)

theorem isNumeric_replicate {n : Nat} {c : Char} (member : c ∈ List.replicate n '0') :
    IsNumeric c := by
  rw [List.eq_of_mem_replicate member]
  exact .inl rfl

theorem isNumeric_placed {pointZero : Bool} {n : Nat} {lead : Int} {c : Char}
    (member : c ∈ placed pointZero (digits n) lead) : IsNumeric c := by
  unfold placed at member
  split at member
  · simp only [List.mem_append, List.mem_cons] at member
    rcases member with (rfl | rfl | zero) | digit
    · exact .inl rfl
    · exact .inr (.inl rfl)
    · exact isNumeric_replicate zero
    · exact isNumeric_digits digit
  dsimp only at member
  split at member
  · simp only [List.mem_append] at member
    rcases member with (digit | zero) | point
    · exact isNumeric_digits digit
    · exact isNumeric_replicate zero
    · split at point
      · simp only [List.mem_cons, List.not_mem_nil, or_false] at point
        rcases point with rfl | rfl
        · exact .inr (.inl rfl)
        · exact .inl rfl
      · cases point
  · simp only [List.mem_append, List.mem_cons] at member
    rcases member with digit | rfl | digit
    · exact isNumeric_digits (List.mem_of_mem_take digit)
    · exact .inr (.inl rfl)
    · exact isNumeric_digits (List.mem_of_mem_drop digit)

theorem isNumeric_scientific {n : Nat} {lead : Int} {c : Char}
    (member : c ∈ scientific (digits n) lead) : IsNumeric c := by
  have all : ∀ d ∈ digits n, IsNumeric d := fun _ => isNumeric_digits
  simp only [scientific, List.mem_append, List.mem_cons] at member
  rcases member with mantissa | rfl | rfl | digit
  · generalize digits n = ds at all mantissa
    split at mantissa
    case h_1 => cases mantissa
    case h_2 => exact all c mantissa
    case h_3 =>
      rcases List.mem_cons.mp mantissa with rfl | later
      · exact all c List.mem_cons_self
      · rcases List.mem_cons.mp later with rfl | digit
        · exact .inr (.inl rfl)
        · exact all c (List.mem_cons_of_mem _ digit)
  · exact .inr (.inr (.inl rfl))
  · split
    · exact .inr (.inr (.inr (.inr rfl)))
    · exact .inr (.inr (.inr (.inl rfl)))
  · exact isNumeric_digits digit

theorem isNumeric_finite {style : Layout} {x : Float} {c : Char} (member : c ∈ style.finite x) :
    IsNumeric c := by
  have layout {n : Nat} {lead : Int} {c : Char} (member : c ∈ if style.positional lead then
      placed style.pointZero (digits n) lead else scientific (digits n) lead) : IsNumeric c := by
    split at member
    · exact isNumeric_placed member
    · exact isNumeric_scientific member
  unfold Layout.finite at member
  dsimp only at member
  split at member
  · exact layout member
  · rcases List.mem_cons.mp member with rfl | later
    · exact .inr (.inr (.inr (.inr rfl)))
    · exact layout later

end Decimal

namespace Json

/-- Whether the written form of a double is read as the double again. -/
def ReadsBack (x : Float) : Prop :=
  Json.parse (encode (Number.double x).text) = .ok (.number (.double x))

/-- The double that is read from the written form of a double. -/
def reread (x : Float) : Float :=
  match Json.parse (encode (Number.double x).text) with
  | .ok (.number (.double y)) => y
  | _ => x

end Json

namespace Json.Reader

theorem solid_of_isDigit {b : UInt8} (digit : isDigit b) : isSpace b = false ∧ b ≠ 0x5D := by
  unfold isDigit at digit
  unfold isSpace
  grind

theorem solid_of_isNumeric {c : Char} (numeric : Decimal.IsNumeric c) {b : UInt8}
    (member : b ∈ String.utf8EncodeChar c) : isSpace b = false ∧ b ≠ 0x5D := by
  rcases numeric with digit | rfl | rfl | rfl | rfl
  · have size := toNat_of_isDigit digit
    rw [Text.Utf8.encodeChar_narrow (by omega), List.mem_singleton] at member
    rw [member]
    exact solid_of_isDigit (isDigit_byte digit)
  all_goals
    cases List.mem_singleton.mp member
    decide

/-- How a number is read with its sign. -/
inductive NumberRun : Bytes → Number → Bytes → Prop where
  | minus {s t : Bytes} {n : Number} (read : number true s = .ok (n, t)) :
      NumberRun (0x2D :: s) n t
  | digit {b : UInt8} {s t : Bytes} {n : Number} (digit : isDigit b)
      (read : number false (b :: s) = .ok (n, t)) : NumberRun (b :: s) n t

theorem NumberRun.suffix {s t : Bytes} {n : Number} (run : NumberRun s n t) : t <:+ s := by
  cases run with
  | minus read => exact (number_suffix read).1.trans (List.suffix_cons _ _)
  | digit _ read => exact (number_suffix read).1

theorem NumberRun.append {s t rest : Bytes} {n : Number} (run : NumberRun s n t)
    (ends : Ends rest) : NumberRun (s ++ rest) n (t ++ rest) := by
  cases run with
  | minus read => exact .minus (number_append ends read)
  | digit digit read => exact .digit digit (number_append ends read)

theorem NumberRun.opens {s t : Bytes} {n : Number} (run : NumberRun s n t) :
    ∃ b rest, s = b :: rest ∧ isSpace b = false ∧ b ≠ 0x5D := by
  cases run with
  | minus _ => exact ⟨_, _, rfl, by decide, by decide⟩
  | digit digit _ => exact ⟨_, _, rfl, solid_of_isDigit digit⟩

theorem NumberRun.solid {s t : Bytes} {n : Number} (run : NumberRun s n t) :
    dropSpace s = s ∧ s.head? ≠ some 0x5D := by
  cases run with
  | minus _ => exact ⟨dropSpace_cons (by decide) _, by simp⟩
  | digit digit _ =>
    obtain ⟨solid, open'⟩ := solid_of_isDigit digit
    exact ⟨dropSpace_cons solid _, by simpa using open'⟩

theorem value_of_numberRun {s t : Bytes} {n : Number} (run : NumberRun s n t) (room : Nat) :
    value room s = .ok (.number n, t) := by
  have read {list object : Reader Json} : valueWith list object s = .ok (.number n, t) := by
    rw [valueWith_eq_ok, run.solid.1]
    cases run with
    | minus read => exact .minus read
    | digit digit read => exact .digit digit read
  cases room <;> exact read

theorem parse_of_numberRun {s : Bytes} {n : Number} (run : NumberRun s n []) :
    Json.parse s = .ok (.number n) :=
  run_eq_ok.mpr ⟨[], value_of_numberRun run _, rfl⟩

theorem readsBack_of_number {x : Float} {b : UInt8} {s : Bytes}
    (text : encode (Number.double x).text = b :: s) (digit : isDigit b)
    (read : (number false (b :: s)).toOption = some (.double x, [])) : ReadsBack x := by
  unfold ReadsBack
  rw [text]
  exact parse_of_numberRun (.digit digit (toOption_eq_some.mp read))

theorem readsBack_zero : ReadsBack 0 := by
  have text : encode (Number.double 0).text = [0x30, 0x2E, 0x30] := by decide +kernel
  exact readsBack_of_number text rfl (by decide +kernel)

theorem readsBack_half : ReadsBack 0.5 := by
  have text : encode (Number.double 0.5).text = [0x30, 0x2E, 0x35] := by decide +kernel
  exact readsBack_of_number text rfl (by decide +kernel)

/-- A number whose kind is accepted is read through the check. -/
theorem numberWith_of_run {α : Type} {expected : String}
    {check : Number → Except Document.Mismatch α} {n : Number} {a : α} {s t u : Bytes}
    (run : NumberRun t n u) (accepts : check n = .ok a) (front : dropSpace s = t) :
    numberWith expected check s = .ok (a, u) := by
  unfold numberWith
  rw [front]
  cases run with
  | minus read =>
    dsimp only
    rw [if_pos rfl, bind_of_ok read, accepts]
    rfl
  | digit digit read =>
    dsimp only
    rw [if_neg (ne_of_isDigit digit).2.2.2, if_pos digit, bind_of_ok read, accepts]
    rfl

theorem numberRun_of_value {room : Nat} {s t : Bytes} {n : Number}
    (read : value room s = .ok (.number n, t)) : NumberRun (dropSpace s) n t := by
  obtain ⟨list, object, run, lists, objects⟩ := run_of_value read
  generalize dropSpace s = front at run
  generalize same : Json.number n = v at run
  cases run with
  | minus read =>
    cases same
    exact .minus read
  | digit digit read =>
    cases same
    exact .digit digit read
  | list read =>
    obtain ⟨_, vs, -, rfl, -⟩ := lists _ _ _ read
    cases same
  | object read =>
    obtain ⟨_, ms, -, rfl, -⟩ := objects _ _ _ read
    cases same
  | _ => cases same

theorem numberRun_double {x : Float} (readsBack : ReadsBack x) :
    NumberRun (encode (Number.double x).text) (.double x) [] := by
  obtain ⟨t, read, blank⟩ := run_eq_ok.mp readsBack
  -- no byte of the text is blank, so nothing is dropped before the number or after it
  have solid : ∀ b ∈ encode (Number.double x).text, isSpace b = false := by
    intro b member
    obtain ⟨c, letter, byte⟩ := List.mem_flatMap.mp member
    exact (solid_of_isNumeric (Decimal.isNumeric_finite letter) byte).1
  have stays {s : Bytes} (inside : s <:+ encode (Number.double x).text) : dropSpace s = s := by
    cases s with
    | nil => rfl
    | cons b s => exact dropSpace_cons (solid b (inside.subset List.mem_cons_self)) s
  have run := numberRun_of_value read
  rw [stays List.suffix_rfl] at run
  rw [stays run.suffix] at blank
  rwa [blank] at run

theorem numberRun_natural (n : UInt64) :
    NumberRun (encode (Number.natural n).text) (.natural n) [] := by
  have read := number_natural n
  have digits : ∀ b ∈ encode (Decimal.digits n.toNat), isDigit b := fun _ =>
    isDigit_of_mem_encode fun _ => Decimal.isDigit_of_mem_digits
  rw [Number.text]
  cases front : encode (Decimal.digits n.toNat) with
  | nil =>
    rw [front] at read
    exact absurd (number_suffix read).2 (Nat.not_lt_zero _)
  | cons b s =>
    rw [front] at read digits
    exact .digit (digits b List.mem_cons_self) read

theorem numberRun_negative {i : Int64} (negative : i < 0) :
    NumberRun (encode (Number.negative i).text) (.negative i) [] := by
  have below : i.toInt < 0 := Int64.lt_iff_toInt_lt.mp negative
  have text : encode (Number.negative i).text =
      0x2D :: encode (Decimal.digits i.toInt.natAbs) := by
    rw [Number.text, Decimal.signedDigits, if_pos below]
    rfl
  rw [text]
  exact .minus (number_negative negative)

end Json.Reader

end QueueBench
