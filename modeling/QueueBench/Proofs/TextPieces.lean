import Mathlib.Data.List.Basic
import Mathlib.Data.List.DropRight
import Mathlib.Data.List.TakeWhile
import QueueBench.Text.Line

set_option autoImplicit false

namespace QueueBench.Text

section Cut

variable {α : Type} {separates : α → Bool}

theorem cutFrom_eq_splitOnPPrepend (piece as : List α) (done : List (List α)) :
    cutFrom separates piece done as =
      done.reverse ++ List.splitOnPPrepend separates as piece := by
  induction as generalizing piece done with
  | nil => rw [cutFrom, List.splitOnPPrepend_nil, List.reverse_cons]
  | cons a rest ih =>
    rw [cutFrom]
    by_cases separator : separates a = true
    · rw [if_pos separator, ih, List.splitOnPPrepend_cons_pos separator,
        List.splitOnPPrepend_nil_right, List.reverse_cons, List.append_assoc,
        List.singleton_append]
    · rw [if_neg separator, ih, List.splitOnPPrepend_cons_neg (by simpa using separator)]

/-- Cutting is the splitting of the library. -/
theorem cut_eq_splitOnP (as : List α) : cut separates as = as.splitOnP separates := by
  rw [cut, cutFrom_eq_splitOnPPrepend, List.splitOnPPrepend_nil_right]
  rfl

theorem cut_append {s : α} (separator : separates s = true) (before after : List α) :
    cut separates (before ++ s :: after) = cut separates before ++ cut separates after := by
  simp only [cut_eq_splitOnP]
  exact List.splitOnP_append_cons before after separator

theorem cut_whole {whole : List α} (joined : ∀ a ∈ whole, separates a = false) :
    cut separates whole = [whole] := by
  rw [cut_eq_splitOnP]
  exact List.splitOnP_eq_singleton joined

end Cut

theorem isBlank_of_isDigit {c : Char} (digit : c.isDigit) : isBlank c = false := by
  have lower : 48 ≤ c.toNat := (Char.isDigit_iff_toNat.mp digit).1
  have upper : c.toNat ≤ 57 := (Char.isDigit_iff_toNat.mp digit).2
  simp only [isBlank, Bool.or_eq_false_iff, Bool.and_eq_false_iff, decide_eq_false_iff_not]
  omega

theorem ne_of_isBlank {c d : Char} (solid : isBlank c = false) (blank : isBlank d = true) :
    c ≠ d := by
  rintro rfl
  rw [solid] at blank
  cases blank

theorem words_append {blank : Char} (separator : isBlank blank = true) (before after : List Char) :
    words (before ++ blank :: after) = words before ++ words after := by
  rw [words, cut_append separator, List.filter_append]
  rfl

theorem words_single {word : List Char} (nonempty : word ≠ [])
    (solid : ∀ c ∈ word, isBlank c = false) : words word = [word] := by
  rw [words, cut_whole solid, List.filter_cons_of_pos (by simpa using nonempty), List.filter_nil]

@[simp] theorem words_nil : words [] = [] := rfl

theorem words_blank_cons {b : Char} (blank : isBlank b = true) (cs : List Char) :
    words (b :: cs) = words cs := by
  have parted := words_append blank [] cs
  rwa [List.nil_append, words_nil, List.nil_append] at parted

theorem words_blanks_append {lead : List Char} (blank : ∀ c ∈ lead, isBlank c = true)
    (cs : List Char) : words (lead ++ cs) = words cs := by
  induction lead with
  | nil => rfl
  | cons b lead ih =>
    rw [List.cons_append, words_blank_cons (blank b List.mem_cons_self)]
    exact ih fun c member => blank c (List.mem_cons_of_mem b member)

/-- Where a word ends: at a blank or at the end of the text. -/
def EndsWord (rest : List Char) : Prop := ∀ c ∈ rest.head?, isBlank c = true

theorem words_word_append {word rest : List Char} (nonempty : word ≠ [])
    (solid : ∀ c ∈ word, isBlank c = false) (ends : EndsWord rest) :
    words (word ++ rest) = word :: words rest := by
  cases rest with
  | nil => rw [List.append_nil, words_single nonempty solid, words_nil]
  | cons b tail =>
    have blank : isBlank b = true := ends b rfl
    rw [words_append blank, words_single nonempty solid, words_blank_cons blank]
    rfl

/-- Blanks stop at the first word, and the word at the next blank. -/
theorem exists_first_word (cs : List Char) :
    (∀ c ∈ cs, isBlank c = true) ∨
      ∃ lead word rest, cs = lead ++ word ++ rest ∧ (∀ c ∈ lead, isBlank c = true) ∧
        word ≠ [] ∧ (∀ c ∈ word, isBlank c = false) ∧ EndsWord rest := by
  have whole := List.takeWhile_append_dropWhile (p := isBlank) (l := cs)
  have leads : ∀ c ∈ cs.takeWhile isBlank, isBlank c = true := fun c => List.mem_takeWhile_imp
  cases found : cs.dropWhile isBlank with
  | nil =>
    rw [found, List.append_nil] at whole
    rw [whole] at leads
    exact Or.inl leads
  | cons c tail =>
    have solid : isBlank c = false := by
      have stopped := List.head?_dropWhile_not isBlank cs
      rw [found] at stopped
      exact stopped
    refine Or.inr ⟨cs.takeWhile isBlank, (c :: tail).takeWhile (!isBlank ·),
      (c :: tail).dropWhile (!isBlank ·), ?_, leads, ?_, ?_, ?_⟩
    · rw [List.append_assoc, List.takeWhile_append_dropWhile, ← found, whole]
    · rw [List.takeWhile_cons_of_pos (by simpa using solid)]
      exact List.cons_ne_nil _ _
    · intro d member
      simpa using List.mem_takeWhile_imp member
    · intro d first
      have stopped := List.head?_dropWhile_not (!isBlank ·) (c :: tail)
      rw [Option.mem_def.mp first] at stopped
      simpa using stopped

theorem words_eq_nil_iff {cs : List Char} : words cs = [] ↔ ∀ c ∈ cs, isBlank c = true := by
  constructor
  · intro none
    rcases exists_first_word cs with blank | ⟨lead, word, rest, rfl, blank, nonempty, solid, ends⟩
    · exact blank
    · rw [List.append_assoc, words_blanks_append blank,
        words_word_append nonempty solid ends] at none
      cases none
  · intro blank
    have all := words_blanks_append blank []
    rwa [List.append_nil] at all

/-- The first word stands behind blanks and ends at a blank or with the text. -/
theorem words_eq_cons_iff {cs word : List Char} {more : List (List Char)} :
    words cs = word :: more ↔
      ∃ lead rest, cs = lead ++ word ++ rest ∧ (∀ c ∈ lead, isBlank c = true) ∧ word ≠ [] ∧
        (∀ c ∈ word, isBlank c = false) ∧ EndsWord rest ∧ words rest = more := by
  constructor
  · intro found
    rcases exists_first_word cs with
      blank | ⟨lead, first, rest, whole, blank, nonempty, solid, ends⟩
    · rw [words_eq_nil_iff.mpr blank] at found
      cases found
    · rw [whole, List.append_assoc, words_blanks_append blank,
        words_word_append nonempty solid ends, List.cons.injEq] at found
      obtain ⟨rfl, later⟩ := found
      exact ⟨lead, rest, whole, blank, nonempty, solid, ends, later⟩
  · rintro ⟨lead, rest, rfl, blank, nonempty, solid, ends, later⟩
    rw [List.append_assoc, words_blanks_append blank, words_word_append nonempty solid ends, later]

/-- Two words have blanks between them, and may have blanks around them. -/
theorem words_eq_pair_iff {cs first second : List Char} :
    words cs = [first, second] ↔
      ∃ lead gap trail, cs = lead ++ first ++ gap ++ second ++ trail ∧
        (∀ c ∈ lead ++ gap ++ trail, isBlank c = true) ∧ gap ≠ [] ∧
          (first ≠ [] ∧ ∀ c ∈ first, isBlank c = false) ∧
            second ≠ [] ∧ ∀ c ∈ second, isBlank c = false := by
  constructor
  · intro found
    obtain ⟨lead, rest, rfl, leads, nonempty, solid, ends, later⟩ := words_eq_cons_iff.mp found
    obtain ⟨gap, trail, rfl, gaps, nonempty', solid', -, none⟩ := words_eq_cons_iff.mp later
    have trails := words_eq_nil_iff.mp none
    refine ⟨lead, gap, trail, by simp only [List.append_assoc], ?_, ?_, ⟨nonempty, solid⟩,
      nonempty', solid'⟩
    · intro c member
      rcases List.mem_append.mp member with front | behind
      · rcases List.mem_append.mp front with before | between
        · exact leads c before
        · exact gaps c between
      · exact trails c behind
    · -- without a gap the second word would end the first
      rintro rfl
      obtain ⟨c, tail, rfl⟩ := List.exists_cons_of_ne_nil nonempty'
      exact ne_of_isBlank (solid' c List.mem_cons_self) (ends c rfl) rfl
  · rintro ⟨lead, gap, trail, rfl, blank, apart, ⟨nonempty, solid⟩, nonempty', solid'⟩
    have leads : ∀ c ∈ lead, isBlank c = true := fun c member =>
      blank c (List.mem_append_left _ (List.mem_append_left _ member))
    have gaps : ∀ c ∈ gap, isBlank c = true := fun c member =>
      blank c (List.mem_append_left _ (List.mem_append_right _ member))
    have trails : ∀ c ∈ trail, isBlank c = true := fun c member =>
      blank c (List.mem_append_right _ member)
    have endsFirst : EndsWord (gap ++ (second ++ trail)) := by
      obtain ⟨b, tail, rfl⟩ := List.exists_cons_of_ne_nil apart
      intro c here
      rw [← Option.some.inj here]
      exact gaps b List.mem_cons_self
    have endsSecond : EndsWord trail := fun c here => trails c (List.mem_of_mem_head? here)
    simp only [List.append_assoc]
    rw [words_blanks_append leads, words_word_append nonempty solid endsFirst,
      words_blanks_append gaps, words_word_append nonempty' solid' endsSecond,
      words_eq_nil_iff.mpr trails]

/-- A core without blanks at its ends, and nothing but blanks around it. -/
structure Trims (cs core : List Char) : Prop where
  around : ∃ lead trail, cs = lead ++ core ++ trail ∧ ∀ c ∈ lead ++ trail, isBlank c = true
  front : ∀ c ∈ core.head?, isBlank c = false
  back : ∀ c ∈ core.getLast?, isBlank c = false

theorem dropWhile_blanks {lead rest : List Char} (blank : ∀ c ∈ lead, isBlank c = true)
    (solid : ∀ c ∈ rest.head?, isBlank c = false) : (lead ++ rest).dropWhile isBlank = rest := by
  rw [List.dropWhile_append_of_pos blank]
  cases rest with
  | nil => rfl
  | cons c rest =>
    have stops : ¬ isBlank c = true := by simp only [solid c rfl, Bool.false_eq_true, not_false_iff]
    exact List.dropWhile_cons_of_neg stops

theorem trims_trim (cs : List Char) : Trims cs (trim cs) := by
  have split : cs = cs.takeWhile isBlank ++ cs.dropWhile isBlank :=
    List.takeWhile_append_dropWhile.symm
  have ends : cs.dropWhile isBlank = trim cs ++ (cs.dropWhile isBlank).rtakeWhile isBlank :=
    List.rdropWhile_append_rtakeWhile.symm
  constructor
  case around =>
    refine ⟨cs.takeWhile isBlank, (cs.dropWhile isBlank).rtakeWhile isBlank, ?_, ?_⟩
    · rw [List.append_assoc, ← ends, ← split]
    · intro c member
      rcases List.mem_append.mp member with before | behind
      · exact List.mem_takeWhile_imp before
      · exact List.mem_rtakeWhile_imp behind
  case front =>
    intro c first
    have stopped := List.head?_dropWhile_not isBlank cs
    rw [ends, List.head?_append, Option.mem_def.mp first] at stopped
    exact stopped
  case back =>
    intro c last
    obtain ⟨some, rfl⟩ := List.mem_getLast?_eq_getLast last
    have stopped := List.rdropWhile_last_not isBlank (cs.dropWhile isBlank) some
    exact Bool.eq_false_iff.mpr stopped

theorem trim_eq_of_trims {cs core : List Char} (trims : Trims cs core) : trim cs = core := by
  obtain ⟨⟨lead, trail, rfl, blank⟩, front, back⟩ := trims
  have leads : ∀ c ∈ lead, isBlank c = true := fun c member =>
    blank c (List.mem_append_left _ member)
  have trails : ∀ c ∈ trail.reverse, isBlank c = true := fun c member =>
    blank c (List.mem_append_right _ (List.mem_reverse.mp member))
  cases core with
  | nil =>
    have all : (lead ++ trail ++ []).dropWhile isBlank = [] := dropWhile_blanks blank nofun
    rw [List.append_nil] at all
    rw [trim, List.append_nil, all]
    rfl
  | cons c rest =>
    have fore : (lead ++ (c :: rest ++ trail)).dropWhile isBlank = c :: rest ++ trail :=
      dropWhile_blanks leads front
    rw [← List.head?_reverse] at back
    rw [trim, List.append_assoc, fore, List.reverse_append, dropWhile_blanks trails back,
      List.reverse_reverse]

theorem trims_padded {lead core trail : List Char} (solid : ∀ c ∈ core, isBlank c = false)
    (blank : ∀ c ∈ lead ++ trail, isBlank c = true) : Trims (lead ++ core ++ trail) core :=
  ⟨⟨lead, trail, rfl, blank⟩, fun c first => solid c (List.mem_of_mem_head? first),
    fun c last => solid c (List.mem_of_mem_getLast? last)⟩

theorem before_whole {c : Char} {cs : List Char} (absent : c ∉ cs) : before c cs = cs := by
  apply List.takeWhile_eq_self_iff.mpr
  intro d member
  rw [bne_iff_ne]
  rintro rfl
  exact absent member

theorem before_append {c : Char} {front : List Char} (absent : c ∉ front) (back : List Char) :
    before c (front ++ c :: back) = front := by
  have whole : front.takeWhile (· != c) = front := before_whole absent
  rw [before, List.takeWhile_append, whole, if_pos rfl, List.takeWhile_cons_of_neg (by simp),
    List.append_nil]

theorem not_mem_before (c : Char) (cs : List Char) : c ∉ before c cs := by
  intro member
  have kept := List.mem_takeWhile_imp member
  rw [bne_self_eq_false] at kept
  cases kept

theorem before_append_of_mem {c : Char} {front : List Char} (present : c ∈ front)
    (back : List Char) : before c (front ++ back) = before c front := by
  have shorter : (front.takeWhile (· != c)).length ≠ front.length := by
    intro same
    have whole : before c front = front := (List.takeWhile_prefix _).eq_of_length same
    rw [← whole] at present
    exact not_mem_before c front present
  rw [before, List.takeWhile_append, if_neg shorter]
  rfl

theorem before_subset (c : Char) (cs : List Char) : before c cs ⊆ cs :=
  (List.takeWhile_sublist _).subset

/-- The part before a letter ends with the text or where the letter stands first. -/
theorem before_eq_iff {c : Char} {cs front : List Char} :
    before c cs = front ↔
      c ∉ front ∧ ∃ back, cs = front ++ back ∧ ∀ d ∈ back.head?, d = c := by
  constructor
  · intro cut
    have absent := not_mem_before c cs
    rw [cut] at absent
    refine ⟨absent, cs.dropWhile (· != c), ?_, ?_⟩
    · rw [← cut, before, List.takeWhile_append_dropWhile]
    · intro d here
      have stopped := List.head?_dropWhile_not (· != c) cs
      rw [Option.mem_def.mp here] at stopped
      simpa using stopped
  · rintro ⟨absent, back, rfl, stops⟩
    cases back with
    | nil => rw [List.append_nil, before_whole absent]
    | cons d back =>
      rw [stops d rfl]
      exact before_append absent back

/-- The lines of a text are what is cut at its line feeds; only the last may be open, and it counts
unless it is empty. -/
theorem exists_lines (cs : List Char) :
    ∃ closed last, cut (· == '\n') cs = closed ++ [last] ∧
      lines cs = closed.map dropReturn ++ if last.isEmpty then [] else [last] := by
  have some : cut (· == '\n') cs ≠ [] := by
    rw [cut_eq_splitOnP]
    exact List.splitOnP_ne_nil _ cs
  obtain ⟨closed, last, pieces⟩ := (List.eq_nil_or_concat _).resolve_left some
  rw [List.concat_eq_append] at pieces
  refine ⟨closed, last, pieces, ?_⟩
  rw [lines, pieces, List.reverse_append, List.reverse_singleton, List.singleton_append]
  dsimp only
  rw [List.reverse_reverse]

end QueueBench.Text
