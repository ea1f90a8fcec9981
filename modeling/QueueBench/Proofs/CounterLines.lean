import QueueBench.Counter.Dump
import QueueBench.Proofs.DigitRuns
import QueueBench.Proofs.TextPieces

set_option autoImplicit false

namespace QueueBench.Dump

open Text (isBlank)

/-- The name that a counter line may give to an event: one word without a number sign. -/
def IsName (event : List Char) : Prop :=
  event ≠ [] ∧ ∀ c ∈ event, isBlank c = false ∧ c ≠ '#'

/-- Blanks, and at least one of them where the count ends. -/
structure Padding (lead gap trail : List Char) : Prop where
  blank : ∀ c ∈ lead ++ gap ++ trail, isBlank c = true
  apart : gap ≠ []

def IsRemark (remark : List Char) : Prop := ∀ c ∈ remark.head?, c = '#'

/-- The line spells out an event and its count, with nothing else but blanks before a remark. -/
def Spells (line : List Char) (event : String) (n : UInt64) : Prop :=
  ∃ lead count gap trail remark,
    line = lead ++ count ++ gap ++ event.toList ++ trail ++ remark ∧ Padding lead gap trail ∧
      Decimal.Denotes count n.toNat ∧ IsName event.toList ∧ IsRemark remark

theorem parseLine_eq_some_iff_words {cs : List Char} {event : String} {n : UInt64} :
    parseLine cs = some (event, n) ↔
      ∃ count name, Text.words (Text.before '#' cs) = [count, name] ∧
        Decimal.natBelow? Json.wordBound count = some n.toNat ∧ event = String.ofList name := by
  unfold parseLine
  split
  case h_1 count name found =>
    rw [found, Option.map_eq_some_iff]
    constructor
    · rintro ⟨m, read, made⟩
      obtain ⟨rfl, rfl⟩ := Prod.mk.inj made
      have small : m < 2 ^ 64 := (Decimal.natBelow?_eq_some_iff.mp read).2.2
      refine ⟨count, name, rfl, ?_, rfl⟩
      rw [UInt64.toNat_ofNat', Nat.mod_eq_of_lt small]
      exact read
    · rintro ⟨count', name', same, read, rfl⟩
      cases same
      exact ⟨n.toNat, read, by rw [UInt64.ofNat_toNat]⟩
  case h_2 other =>
    constructor
    · intro found
      cases found
    · rintro ⟨count, name, found, -⟩
      exact absurd found (other count name)

theorem solid_of_denotes {count : List Char} {n : Nat} (denotes : Decimal.Denotes count n) :
    ∀ c ∈ count, isBlank c = false ∧ c ≠ '#' := by
  intro c member
  have digit := (Decimal.isNumeral_iff.mp denotes.numeral).2 c member
  refine ⟨Text.isBlank_of_isDigit digit, ?_⟩
  rintro rfl
  exact absurd digit (by decide)

theorem spells_of_parseLine {line : List Char} {event : String} {n : UInt64}
    (parsed : parseLine line = some (event, n)) : Spells line event n := by
  obtain ⟨count, name, pair, read, rfl⟩ := parseLine_eq_some_iff_words.mp parsed
  obtain ⟨numeral, value, -⟩ := Decimal.natBelow?_eq_some_iff.mp read
  obtain ⟨lead, gap, trail, front, blank, apart, -, nonempty, solid⟩ :=
    Text.words_eq_pair_iff.mp pair
  obtain ⟨plain, remark, whole, starts⟩ := Text.before_eq_iff.mp front
  refine ⟨lead, count, gap, trail, remark, ?_, ⟨blank, apart⟩, ⟨numeral, value⟩, ?_, starts⟩
  · rw [String.toList_ofList]
    exact whole
  · rw [String.toList_ofList]
    refine ⟨nonempty, fun c member => ⟨solid c member, ?_⟩⟩
    rintro rfl
    exact plain (List.mem_append_left _ (List.mem_append_right _ member))

theorem parseLine_of_spells {line : List Char} {event : String} {n : UInt64}
    (spells : Spells line event n) : parseLine line = some (event, n) := by
  obtain ⟨lead, count, gap, trail, remark, rfl, padding, denotes, ⟨nonempty, name⟩, starts⟩ := spells
  have digits := solid_of_denotes denotes
  have blank : '#' ∉ lead ++ gap ++ trail := fun inside =>
    absurd (padding.blank '#' inside) (by decide)
  have counted : '#' ∉ count := fun inside => (digits '#' inside).2 rfl
  have named : '#' ∉ event.toList := fun inside => (name '#' inside).2 rfl
  have plain : '#' ∉ lead ++ count ++ gap ++ event.toList ++ trail := by
    simp only [List.mem_append, not_or] at blank ⊢
    exact ⟨⟨⟨⟨blank.1.1, counted⟩, blank.1.2⟩, named⟩, blank.2⟩
  have front := Text.before_eq_iff.mpr ⟨plain, remark, rfl, starts⟩
  have some : count ≠ [] := (Decimal.isNumeral_iff.mp denotes.numeral).1
  have pair := Text.words_eq_pair_iff.mpr ⟨lead, gap, trail, rfl, padding.blank, padding.apart,
    ⟨some, fun c member => (digits c member).1⟩, nonempty, fun c member => (name c member).1⟩
  apply parseLine_eq_some_iff_words.mpr
  refine ⟨count, event.toList, ?_, Decimal.natBelow?_word denotes, String.ofList_toList.symm⟩
  rw [front, pair]

theorem parseLine_eq_some_iff {line : List Char} {event : String} {n : UInt64} :
    parseLine line = some (event, n) ↔ Spells line event n :=
  ⟨spells_of_parseLine, parseLine_of_spells⟩

theorem parseLine_eq_none_iff {line : List Char} :
    parseLine line = none ↔ ∀ event n, ¬ Spells line event n := by
  rw [Option.eq_none_iff_forall_ne_some, Prod.forall]
  simp only [ne_eq, parseLine_eq_some_iff]

/-- What stands before a remark is read, so no event that is read has the sign of one. -/
theorem not_mem_of_parseLine {cs : List Char} {event : String} {n : UInt64}
    (parsed : parseLine cs = some (event, n)) : '#' ∉ event.toList := by
  obtain ⟨-, -, -, -, -, -, -, -, name, -⟩ := spells_of_parseLine parsed
  intro member
  exact (name.2 '#' member).2 rfl

/-- A line is accepted just if it spells out an event and its count, and it is read as these. Zeros
in front of the count, blanks around both and a remark do not matter. -/
theorem parseLine_accepts_its_grammar (line : List Char) :
    (∀ event n, parseLine line = some (event, n) ↔ Spells line event n) ∧
      (parseLine line = none ↔ ∀ event n, ¬ Spells line event n) ∧
      ∀ (event : String) (n : UInt64) (zeros : Nat) (lead gap trail remark : List Char),
        IsName event.toList → Padding lead gap trail → IsRemark remark →
          line = lead ++ (List.replicate zeros '0' ++ Decimal.digits n.toNat) ++ gap ++
            event.toList ++ trail ++ remark →
          parseLine line = some (event, n) := by
  refine ⟨fun _ _ => parseLine_eq_some_iff, parseLine_eq_none_iff, ?_⟩
  intro event n zeros lead gap trail remark name padding starts whole
  apply parseLine_of_spells
  exact ⟨lead, _, gap, trail, remark, whole, padding, Decimal.denotes_digits zeros n.toNat, name,
    starts⟩

theorem parseLine_accepts_its_grammar_padded :
    parseLine "\t007\u00A0 cache-misses:u\u2003# 3 of 4".toList = some ("cache-misses:u", 7) := by
  obtain ⟨-, -, padded⟩ :=
    parseLine_accepts_its_grammar "\t007\u00A0 cache-misses:u\u2003# 3 of 4".toList
  have letters : "cache-misses:u".toList.all (fun c => !isBlank c && c != '#') = true := by
    decide +kernel
  have name : IsName "cache-misses:u".toList := by
    refine ⟨by decide +kernel, ?_⟩
    simpa using letters
  have blanks : (['\t'] ++ ['\u00A0', ' '] ++ ['\u2003']).all isBlank = true := rfl
  have padding : Padding ['\t'] ['\u00A0', ' '] ['\u2003'] :=
    ⟨List.all_eq_true.mp blanks, List.cons_ne_nil _ _⟩
  have remark : IsRemark "# 3 of 4".toList := by
    have sign : "# 3 of 4".toList.head? = some '#' := by decide +kernel
    intro c here
    rw [Option.mem_def, sign] at here
    exact (Option.some.inj here).symm
  exact padded "cache-misses:u" 7 2 _ _ _ _ name padding remark (by decide +kernel)

theorem parseLine_congr {line line' : List Char}
    (same : Text.words (Text.before '#' line) = Text.words (Text.before '#' line')) :
    parseLine line = parseLine line' := by
  unfold parseLine
  rw [same]

/-- A carriage return at the end is a blank, or part of a remark. -/
theorem parseLine_dropReturn (line : List Char) :
    parseLine (Text.dropReturn line) = parseLine line := by
  unfold Text.dropReturn
  split
  · rename_i last
    obtain ⟨front, rfl⟩ := List.getLast?_eq_some_iff.mp last
    rw [List.dropLast_concat]
    apply parseLine_congr
    by_cases remark : '#' ∈ front
    · rw [Text.before_append_of_mem remark]
    · have plain : '#' ∉ front ++ ['\r'] := by
        simpa using remark
      rw [Text.before_whole remark, Text.before_whole plain, Text.words_append (by decide),
        Text.words_nil, List.append_nil]
  · rfl

theorem readings_eq_cut (text : List Char) :
    readings text = (Text.cut (· == '\n') text).filterMap parseLine := by
  obtain ⟨closed, last, pieces, lines⟩ := Text.exists_lines text
  have returns : parseLine ∘ Text.dropReturn = parseLine := funext parseLine_dropReturn
  rw [readings, lines, pieces, List.filterMap_append, List.filterMap_append, List.filterMap_map,
    returns]
  cases last with
  | nil => rfl
  | cons c rest => rfl

/-- What stands on the two sides of a line feed is read apart. -/
theorem readings_append (before after : List Char) :
    readings (before ++ '\n' :: after) = readings before ++ readings after := by
  have parted : Text.cut (· == '\n') (before ++ '\n' :: after) =
      Text.cut (· == '\n') before ++ Text.cut (· == '\n') after :=
    Text.cut_append rfl before after
  rw [readings_eq_cut, readings_eq_cut, readings_eq_cut, parted, List.filterMap_append]

theorem readings_unbroken {line : List Char} (unbroken : '\n' ∉ line) :
    readings line = (parseLine line).toList := by
  rw [readings_eq_cut, Text.cut_whole, List.filterMap_cons, List.filterMap_nil]
  · cases parseLine line <;> rfl
  · intro c member
    rw [beq_eq_false_iff_ne]
    rintro rfl
    exact unbroken member

end QueueBench.Dump
