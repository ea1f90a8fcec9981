import QueueBench.Artifact.Name
import QueueBench.Proofs.DigitRuns

set_option autoImplicit false

namespace QueueBench

namespace Family

open Decimal

theorem splitProducers_cons {c : Char} (apart : c ≠ '_') (cs : List Char) :
    splitProducers (c :: cs) = (c :: (splitProducers cs).1, (splitProducers cs).2) := by
  cases cs with
  | nil => rfl
  | cons d rest => rw [splitProducers, if_neg fun both => apart both.1]

theorem splitProducers_append {queue : List Char} (digit : ∀ c ∈ queue, c.isDigit = true)
    (rest : List Char) : splitProducers (queue ++ rest) =
      (queue ++ (splitProducers rest).1, (splitProducers rest).2) := by
  induction queue with
  | nil => rfl
  | cons c queue ih =>
    have apart : c ≠ '_' := by
      rintro rfl
      exact absurd (digit '_' List.mem_cons_self) (by decide)
    rw [List.cons_append, splitProducers_cons apart,
      ih fun d member => digit d (List.mem_cons_of_mem c member), List.cons_append]

theorem splitProducers_digits {queue : List Char} (digit : ∀ c ∈ queue, c.isDigit = true)
    (rest : List Char) :
    splitProducers (queue ++ '_' :: 'p' :: rest) = (queue, some rest) := by
  rw [splitProducers_append digit, splitProducers, if_pos ⟨rfl, rfl⟩, List.append_nil]

theorem middle?_append (family : Family) (middle : List Char) :
    family.middle? (family.opening.toList ++ middle ++ family.extension.toList) = some middle := by
  have opens : family.opening.toList.isPrefixOf
      (family.opening.toList ++ (middle ++ family.extension.toList)) = true :=
    List.isPrefixOf_iff_prefix.mpr ⟨_, rfl⟩
  have ends : family.extension.toList.isSuffixOf (middle ++ family.extension.toList) = true :=
    List.isSuffixOf_iff_suffix.mpr ⟨_, rfl⟩
  rw [List.append_assoc]
  unfold middle?
  rw [if_pos opens, List.drop_left]
  dsimp only
  rw [if_pos ends, List.length_append, Nat.add_sub_cancel, List.take_left]

/-- The file name with the given spellings of both coordinates. -/
def spell (family : Family) (queue producers : List Char) : String :=
  String.ofList
    (family.opening.toList ++ (queue ++ '_' :: 'p' :: producers) ++ family.extension.toList)

theorem decode_spell (family : Family) {queue : List Char} (numeral : isNumeral queue = true)
    (producers : List Char) :
    family.decode (family.spell queue producers) =
      ((natBelow? Json.wordBound queue).bind fun q =>
        (natBelow? Json.halfWordBound producers).map fun p =>
          .exact ⟨UInt64.ofNat q, UInt32.ofNat p⟩).getD .malformed := by
  have split := splitProducers_digits (isNumeral_iff.mp numeral).2 producers
  unfold decode spell
  rw [String.toList_ofList, middle?_append]
  simp only [split]
  cases natBelow? Json.wordBound queue with
  | none => rfl
  | some q => cases natBelow? Json.halfWordBound producers <;> rfl

end Family

end QueueBench
