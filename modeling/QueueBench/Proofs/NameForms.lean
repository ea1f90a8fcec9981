import QueueBench.Proofs.NameGrammar
import QueueBench.Proofs.ReportedNames
import QueueBench.Proofs.WrittenNumbers

set_option autoImplicit false

namespace QueueBench

namespace Decimal

/-- A zero in front of further digits. -/
def SpareZero (cs : List Char) : Prop := cs.head? = some '0' ∧ 1 < cs.length

theorem not_spareZero_digits (n : Nat) : ¬ SpareZero (digits n) := by
  rintro ⟨zero, more⟩
  rcases Nat.eq_zero_or_pos n with rfl | positive
  · exact absurd more (by decide)
  · exact head?_digits positive zero

theorem digitChar_sub_zero {c : Char} (digit : c.isDigit = true) :
    (c.toNat - '0'.toNat).digitChar = c := by
  obtain ⟨least, most⟩ := Json.Reader.toNat_of_isDigit digit
  have zero : '0'.toNat = 48 := rfl
  apply Char.toNat_inj.mp
  rw [Nat.toNat_digitChar_of_lt_ten (by omega)]
  omega

theorem digits_concat {n : Nat} (positive : 0 < n) {c : Char} (digit : c.isDigit = true) :
    digits (10 * n + (c.toNat - '0'.toNat)) = digits n ++ [c] := by
  obtain ⟨least, most⟩ := Json.Reader.toNat_of_isDigit digit
  have zero : '0'.toNat = 48 := rfl
  have small : c.toNat - '0'.toNat < 10 := by omega
  unfold digits
  rw [← Nat.toDigits_append_toDigits (by decide) positive small, Nat.toDigits_of_lt_base small,
    digitChar_sub_zero digit]

theorem ofDigits_concat (cs : List Char) (c : Char) :
    ofDigits (cs ++ [c]) = 10 * ofDigits cs + (c.toNat - '0'.toNat) := by
  unfold ofDigits
  rw [Nat.ofDigitChars_append]
  rfl

/-- A run of digits that does not begin with a zero is the written form of its number. The induction
is on the last digit, which the numeral of a positive number takes on at its end. -/
theorem digits_ofDigits {cs : List Char} (numeral : isNumeral cs = true)
    (begins : cs.head? ≠ some '0') : digits (ofDigits cs) = cs ∧ 0 < ofDigits cs := by
  induction cs using List.reverseRecOn with
  | nil => exact absurd numeral (by decide)
  | append_singleton cs c ih =>
    obtain ⟨-, digit⟩ := isNumeral_iff.mp numeral
    have last : c.isDigit = true := digit c (List.mem_append_right _ List.mem_cons_self)
    rw [ofDigits_concat]
    cases cs with
    | nil =>
      obtain ⟨least, most⟩ := Json.Reader.toNat_of_isDigit last
      have zero : '0'.toNat = 48 := rfl
      have other : c.toNat ≠ '0'.toNat := fun same => begins (congrArg some (Char.toNat_inj.mp same))
      have small : c.toNat - '0'.toNat < 10 := by omega
      have none : ofDigits [] = 0 := rfl
      rw [none, Nat.mul_zero, Nat.zero_add]
      refine ⟨?_, by omega⟩
      rw [digits, Nat.toDigits_of_lt_base small, digitChar_sub_zero last]
      rfl
    | cons d cs =>
      have front : isNumeral (d :: cs) = true := isNumeral_iff.mpr
        ⟨List.cons_ne_nil d cs, fun e member => digit e (List.mem_append_left _ member)⟩
      obtain ⟨written, positive⟩ := ih front begins
      exact ⟨by rw [digits_concat positive last, written], by omega⟩

/-- The written form of a number is its one run of digits without a zero to spare. -/
theorem Denotes.eq_digits_iff {cs : List Char} {n : Nat} (denotes : Denotes cs n) :
    cs = digits n ↔ ¬ SpareZero cs := by
  constructor
  · rintro rfl
    exact not_spareZero_digits n
  · intro spare
    by_cases zero : cs.head? = some '0'
    · obtain ⟨tail, rfl⟩ : ∃ tail, cs = '0' :: tail := List.head?_eq_some_iff.mp zero
      have alone : tail = [] := by
        apply List.eq_nil_of_length_eq_zero
        by_contra more
        exact spare ⟨rfl, by rw [List.length_cons]; omega⟩
      subst alone
      rw [← denotes.value]
      rfl
    · rw [← denotes.value]
      exact (digits_ofDigits denotes.numeral zero).1.symm

end Decimal

namespace Family

open Decimal

theorem splitProducers_eq_some {cs queue producers : List Char}
    (split : splitProducers cs = (queue, some producers)) :
    cs = queue ++ '_' :: 'p' :: producers := by
  induction cs using splitProducers.induct generalizing queue with
  | case1 => cases split
  | case2 c => cases split
  | case3 c d rest both =>
    rw [splitProducers, if_pos both] at split
    cases split
    rw [both.1, both.2, List.nil_append]
  | case4 c d rest other front back read ih =>
    rw [splitProducers, if_neg other, read] at split
    cases split
    rw [ih read, List.cons_append]

theorem splitProducers_eq_none {cs queue : List Char} (split : splitProducers cs = (queue, none)) :
    cs = queue := by
  induction cs using splitProducers.induct generalizing queue with
  | case1 => cases split; rfl
  | case2 c => cases split; rfl
  | case3 c d rest both =>
    rw [splitProducers, if_pos both] at split
    cases split
  | case4 c d rest other front back read ih =>
    rw [splitProducers, if_neg other, read] at split
    cases split
    rw [ih read]

theorem splitProducers_digits_alone {queue : List Char}
    (digit : ∀ c ∈ queue, c.isDigit = true) : splitProducers queue = (queue, none) := by
  have split := splitProducers_append digit []
  rwa [splitProducers, List.append_nil] at split

theorem middle?_eq_some_iff {family : Family} {name middle : List Char} :
    family.middle? name = some middle ↔
      name = family.opening.toList ++ middle ++ family.extension.toList := by
  constructor
  · intro found
    unfold middle? at found
    split at found
    case isFalse => cases found
    case isTrue opens =>
      obtain ⟨rest, rfl⟩ := List.isPrefixOf_iff_prefix.mp opens
      rw [List.drop_left] at found
      dsimp only at found
      split at found
      case isFalse => cases found
      case isTrue ends =>
        obtain ⟨front, rfl⟩ := List.isSuffixOf_iff_suffix.mp ends
        rw [List.length_append, Nat.add_sub_cancel, List.take_left] at found
        rw [Option.some.inj found, List.append_assoc]
  · rintro rfl
    exact middle?_append family middle

/-- Both coordinates are spelled out, the queue size before `_p` and the producers after it. -/
def SpellsBoth (family : Family) (name : String) (key : Key) : Prop :=
  ∃ queue producers, name = family.spell queue producers ∧
    Denotes queue key.queueSize.toNat ∧ Denotes producers key.producerCount.toNat

/-- The queue size is spelled out alone, which stands for no producers. -/
def SpellsQueue (family : Family) (name : String) (key : Key) : Prop :=
  family ≠ .counter ∧ key.producerCount = 0 ∧
    ∃ queue, name = family.around (String.ofList queue) ∧ Denotes queue key.queueSize.toNat

theorem needsProducers_iff (family : Family) : family.needsProducers = true ↔ family = .counter := by
  cases family <;> decide

theorem eq_spell_iff {family : Family} {name : String} {queue producers : List Char} :
    name = family.spell queue producers ↔
      family.middle? name.toList = some (queue ++ '_' :: 'p' :: producers) := by
  rw [middle?_eq_some_iff, spell, ← String.toList_inj, String.toList_ofList]

theorem eq_around_iff {family : Family} {name : String} {queue : List Char} :
    name = family.around (String.ofList queue) ↔ family.middle? name.toList = some queue := by
  rw [middle?_eq_some_iff, ← String.toList_inj, toList_around, String.toList_ofList]

theorem spell_eq_around (family : Family) (queue producers : List Char) :
    family.spell queue producers =
      family.around (String.ofList (queue ++ '_' :: 'p' :: producers)) :=
  eq_around_iff.mpr (eq_spell_iff.mp rfl)

theorem encode_eq_spell (family : Family) (key : Key) : family.encode key =
    family.spell (digits key.queueSize.toNat) (digits key.producerCount.toNat) := by
  apply eq_spell_iff.mpr
  apply middle?_eq_some_iff.mpr
  simp [encode, String.toList_append, String.toList_ofList]

variable {family : Family} {name : String} {key : Key}

theorem decode_of_spellsBoth (spells : family.SpellsBoth name key) :
    family.decode name = .exact key := by
  obtain ⟨queue, producers, rfl, size, count⟩ := spells
  rw [decode_spell family size.numeral, natBelow?_word size, natBelow?_halfWord count]
  simp

theorem decode_of_spellsQueue (spells : family.SpellsQueue name key) :
    family.decode name = .producerDefaulted key := by
  obtain ⟨optional, none, queue, spelled, size⟩ := spells
  have alone := splitProducers_digits_alone (isNumeral_iff.mp size.numeral).2
  have free : ¬ family.needsProducers = true := fun needs =>
    optional ((needsProducers_iff family).mp needs)
  obtain ⟨queueSize, producerCount⟩ := key
  cases none
  unfold decode
  rw [eq_around_iff.mp spelled]
  simp only [alone, natBelow?_word size, if_neg free, UInt64.ofNat_toNat]
  rfl

/-- Whatever is read was spelled: the cases are the ways through the reading of a name. -/
theorem spells_of_decode (read : family.decode name ≠ .malformed) :
    ∃ key, family.SpellsBoth name key ∨ family.SpellsQueue name key := by
  cases inside : family.middle? name.toList with
  | none => exact absurd (by rw [decode, inside]) read
  | some middle =>
    unfold decode at read
    rw [inside] at read
    dsimp only at read
    rcases split : splitProducers middle with ⟨queue, producers | producers⟩
    · obtain rfl := splitProducers_eq_none split
      cases size : natBelow? Json.wordBound middle with
      | none => simp [split, size] at read
      | some q =>
        obtain ⟨numeral, value, small⟩ := natBelow?_eq_some_iff.mp size
        by_cases counter : family = .counter
        · simp [split, size, (needsProducers_iff family).mpr counter] at read
        · refine ⟨⟨UInt64.ofNat q, 0⟩, .inr ⟨counter, rfl, middle, eq_around_iff.mpr inside,
            numeral, ?_⟩⟩
          rw [value, UInt64.toNat_ofNat_of_lt' small]
    · obtain rfl := splitProducers_eq_some split
      cases size : natBelow? Json.wordBound queue with
      | none => simp [split, size] at read
      | some q =>
        cases count : natBelow? Json.halfWordBound producers with
        | none => simp [split, size, count] at read
        | some p =>
          obtain ⟨numeral, value, small⟩ := natBelow?_eq_some_iff.mp size
          obtain ⟨numeral', value', small'⟩ := natBelow?_eq_some_iff.mp count
          refine ⟨⟨UInt64.ofNat q, UInt32.ofNat p⟩, .inl ⟨queue, producers,
            eq_spell_iff.mpr inside, ⟨numeral, ?_⟩, ⟨numeral', ?_⟩⟩⟩
          · rw [value, UInt64.toNat_ofNat_of_lt' small]
          · rw [value', UInt32.toNat_ofNat_of_lt' small']

theorem decode_eq_exact_iff : family.decode name = .exact key ↔ family.SpellsBoth name key := by
  refine ⟨fun read => ?_, decode_of_spellsBoth⟩
  obtain ⟨other, both | alone⟩ := spells_of_decode (by rw [read]; nofun)
  · cases read.symm.trans (decode_of_spellsBoth both)
    exact both
  · cases read.symm.trans (decode_of_spellsQueue alone)

theorem decode_eq_producerDefaulted_iff :
    family.decode name = .producerDefaulted key ↔ family.SpellsQueue name key := by
  refine ⟨fun read => ?_, decode_of_spellsQueue⟩
  obtain ⟨other, both | alone⟩ := spells_of_decode (by rw [read]; nofun)
  · cases read.symm.trans (decode_of_spellsBoth both)
  · cases read.symm.trans (decode_of_spellsQueue alone)
    exact alone

theorem decode_eq_malformed_iff : family.decode name = .malformed ↔
    ∀ key, ¬ family.SpellsBoth name key ∧ ¬ family.SpellsQueue name key := by
  constructor
  · intro read key
    constructor
    · intro both
      cases read.symm.trans (decode_of_spellsBoth both)
    · intro alone
      cases read.symm.trans (decode_of_spellsQueue alone)
  · intro nothing
    by_contra read
    obtain ⟨key, both | alone⟩ := spells_of_decode read
    · exact (nothing key).1 both
    · exact (nothing key).2 alone

theorem matchesName_of_decode (read : family.decode name ≠ .malformed) :
    family.matchesName name = true := by
  obtain ⟨key, ⟨queue, producers, rfl, -⟩ | ⟨-, -, queue, rfl, -⟩⟩ := spells_of_decode read
  · rw [spell_eq_around]
    exact matchesName_around family _
  · exact matchesName_around family _

theorem spell_eq_spell_iff {queue queue' producers producers' : List Char}
    (numeral : isNumeral queue = true) (numeral' : isNumeral queue' = true) :
    family.spell queue producers = family.spell queue' producers' ↔
      queue = queue' ∧ producers = producers' := by
  constructor
  · intro same
    have middle := (eq_spell_iff.mp same).symm.trans (eq_spell_iff.mp rfl)
    have split := congrArg splitProducers (Option.some.inj middle)
    rw [splitProducers_digits (isNumeral_iff.mp numeral).2,
      splitProducers_digits (isNumeral_iff.mp numeral').2] at split
    cases split
    exact ⟨rfl, rfl⟩
  · rintro ⟨rfl, rfl⟩
    rfl

/-- A name is the written one if neither coordinate has a zero to spare. -/
theorem spell_eq_encode_iff {queue producers : List Char}
    (size : Denotes queue key.queueSize.toNat) (count : Denotes producers key.producerCount.toNat) :
    family.spell queue producers = family.encode key ↔
      ¬ SpareZero queue ∧ ¬ SpareZero producers := by
  rw [encode_eq_spell, spell_eq_spell_iff size.numeral (isNumeral_digits _), size.eq_digits_iff,
    count.eq_digits_iff]

/-- Reading a name accepts just its grammar: both coordinates, or the queue size alone where the
family allows it, as runs of digits in range, and nothing else. What is accepted is named as the
family names its files, and it is the written name of its key unless a zero is to spare. -/
theorem decode_accepts_its_grammar (family : Family) (name : String) :
    (∀ key, family.decode name = .exact key ↔ family.SpellsBoth name key) ∧
      (∀ key, family.decode name = .producerDefaulted key ↔ family.SpellsQueue name key) ∧
      (family.decode name = .malformed ↔
        ∀ key, ¬ family.SpellsBoth name key ∧ ¬ family.SpellsQueue name key) ∧
      (family.decode name = .malformed → (family.decode name).key = ⟨0, 0⟩) ∧
      (family.decode name ≠ .malformed → family.matchesName name = true) ∧
      ∀ key queue producers, isNumeral queue = true → isNumeral producers = true →
        name = family.spell queue producers → family.decode name = .exact key →
          (name = family.encode key ↔ ¬ SpareZero queue ∧ ¬ SpareZero producers) := by
  refine ⟨fun _ => decode_eq_exact_iff, fun _ => decode_eq_producerDefaulted_iff,
    decode_eq_malformed_iff, ?_, matchesName_of_decode, ?_⟩
  · intro read
    rw [read]
    rfl
  · rintro key queue producers numeral numeral' rfl read
    obtain ⟨queue', producers', same, size, count⟩ := decode_eq_exact_iff.mp read
    obtain ⟨rfl, rfl⟩ := (spell_eq_spell_iff numeral size.numeral).mp same
    exact spell_eq_encode_iff size count

/-- Both zeros in `007` are to spare, so that name is exact without being written for its key. -/
theorem decode_accepts_its_grammar_spare_zeros :
    Family.zoneTrace.decode "tracy_q007_p2.csv" = .exact ⟨7, 2⟩ ∧
      "tracy_q007_p2.csv" ≠ Family.zoneTrace.encode ⟨7, 2⟩ := by
  obtain ⟨exact, -, -, -, -, written⟩ := decode_accepts_its_grammar .zoneTrace "tracy_q007_p2.csv"
  have spelled : "tracy_q007_p2.csv" = Family.zoneTrace.spell ['0', '0', '7'] ['2'] := by decide
  have read : Family.zoneTrace.decode "tracy_q007_p2.csv" = .exact ⟨7, 2⟩ :=
    (exact _).mpr ⟨_, _, spelled, ⟨by decide, by decide⟩, ⟨by decide, by decide⟩⟩
  refine ⟨read, fun same => ?_⟩
  have spare := (written _ _ _ (by decide) (by decide) spelled read).mp same
  exact spare.1 ⟨rfl, by decide⟩

theorem spellsBoth_encode (family : Family) (key : Key) :
    family.SpellsBoth (family.encode key) key :=
  ⟨_, _, encode_eq_spell family key, denotes_digits 0 _, denotes_digits 0 _⟩

theorem decode_encode (family : Family) (key : Key) :
    family.decode (family.encode key) = .exact key :=
  decode_of_spellsBoth (spellsBoth_encode family key)

theorem matchesName_encode (family : Family) (key : Key) :
    family.matchesName (family.encode key) = true := by
  apply matchesName_of_decode
  rw [decode_encode]
  nofun

theorem matchesName_encode_iff (family other : Family) (key : Key) :
    other.matchesName (family.encode key) = true ↔ other = family := by
  constructor
  · intro matched
    exact eq_of_matchesName matched (matchesName_encode family key)
  · rintro rfl
    exact matchesName_encode other key

/-- A written name gives away its family, and read as one of that family its key. -/
theorem encode_inj {family family' : Family} {key key' : Key}
    (same : family.encode key = family'.encode key') : family = family' ∧ key = key' := by
  have own : family' = family := by
    apply (matchesName_encode_iff family family' key).mp
    rw [same]
    exact matchesName_encode family' key'
  subst own
  have read := decode_encode family' key
  rw [same, decode_encode, NameKey.exact.injEq] at read
  exact ⟨rfl, read.symm⟩

/-- The name written for a key is read back as just that key, for every key, and it is a name of its
own family and of no other. So different keys and different families have different names. -/
theorem written_names_are_read_back :
    (∀ (family : Family) (key : Key), family.decode (family.encode key) = .exact key) ∧
      (∀ (family other : Family) (key : Key),
        other.matchesName (family.encode key) = true ↔ other = family) ∧
      Function.Injective fun named : Family × Key => named.1.encode named.2 := by
  refine ⟨decode_encode, matchesName_encode_iff, ?_⟩
  intro named named' same
  obtain ⟨families, keys⟩ := encode_inj same
  exact Prod.ext families keys

/-- The longest name, for the largest of both coordinates. -/
example : Family.throughput.encode ⟨0xFFFFFFFFFFFFFFFF, 0xFFFFFFFF⟩ =
    "benchmark_results_q18446744073709551615_p4294967295.json" := by
  decide +kernel

end Family

end QueueBench
