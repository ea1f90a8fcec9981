import QueueBench.Proofs.Containers
import QueueBench.Proofs.MatrixStore

set_option autoImplicit false

namespace QueueBench

def searched {α : Type} [Ord α] (axis : List α) (x : α) : Nat :=
  halve (exceedsAt axis x) axis.length 0 axis.length

/-- A search comes to its end, at a place of the axis, and has asked about places of the axis only:
what a place beyond would tell makes no difference. -/
structure SearchedWithin {α : Type} [Ord α] (axis : List α) (x : α) : Prop where
  reads : ∀ tooLarge : Nat → Bool, (∀ i < axis.length, tooLarge i = exceedsAt axis x i) →
    halve tooLarge axis.length 0 axis.length = searched axis x
  ends : ∀ more, halve (exceedsAt axis x) (axis.length + more) 0 axis.length = searched axis x
  inside : axis ≠ [] → searched axis x < axis.length

theorem searchedWithin {α : Type} [Ord α] (axis : List α) (x : α) : SearchedWithin axis x := by
  constructor
  · intro tooLarge same
    apply halve_congr
    intro i _ inside
    apply same
    omega
  · intro more
    apply halve_add
    omega
  · intro members
    have some := List.length_pos_iff.mpr members
    have reached := halve_lt (exceedsAt axis x) axis.length 0 some
    rwa [Nat.zero_add] at reached

namespace Matrix

/-- A row and a column within the axes whose labels are the coordinates of a key. -/
structure Labelled (m : Matrix) (key : Key) (row column : Nat) : Prop where
  rowInside : row < m.producerCounts.length
  columnInside : column < m.queueSizes.length
  producerCount : m.producerCounts[row] = key.producerCount
  queueSize : m.queueSizes[column] = key.queueSize

theorem labelled_iff (m : Matrix) (key : Key) (row column : Nat) :
    m.Labelled key row column ↔
      m.producerCounts[row]? = some key.producerCount ∧
        m.queueSizes[column]? = some key.queueSize := by
  simp only [List.getElem?_eq_some_iff]
  constructor
  · intro labelled
    exact ⟨⟨labelled.rowInside, labelled.producerCount⟩,
      ⟨labelled.columnInside, labelled.queueSize⟩⟩
  · intro ⟨⟨rowInside, producerCount⟩, ⟨columnInside, queueSize⟩⟩
    exact ⟨rowInside, columnInside, producerCount, queueSize⟩

theorem labelled_of_position? {m : Matrix} {key : Key} {row column : Nat}
    (found : m.position? key = some (row, column)) : m.Labelled key row column := by
  have ranks := (position?_eq_some_iff_rank m key row column).mp found
  apply (labelled_iff m key row column).mpr
  exact ⟨getElem?_of_rank? ranks.1, getElem?_of_rank? ranks.2⟩

/-- On ascending axes a key is at the only row and column that have its coordinates as labels. -/
theorem position?_iff_labelled {m : Matrix}
    (producerCounts : m.producerCounts.Pairwise (compare · · = .lt))
    (queueSizes : m.queueSizes.Pairwise (compare · · = .lt)) (key : Key) (row column : Nat) :
    m.position? key = some (row, column) ↔ m.Labelled key row column := by
  rw [position?_eq_some_iff_rank, labelled_iff, rank?_eq_some_iff producerCounts,
    rank?_eq_some_iff queueSizes]

theorem onAxes_iff_labelled (m : Matrix) (key : Key) :
    m.OnAxes key ↔ ∃ row column, m.Labelled key row column := by
  unfold OnAxes
  simp only [labelled_iff, List.mem_iff_getElem?, exists_and_left, exists_and_right]

/-- A throughput that is found is in the cell at the position of its key. -/
theorem get?_eq_some_iff (m : Matrix) (key : Key) (x : Float) :
    m.get? key = some x ↔
      ∃ row column, m.position? key = some (row, column) ∧ m.cell? row column = some x := by
  cases found : m.position? key with
  | none => simp [get?_eq_none found]
  | some place =>
    obtain ⟨row, column⟩ := place
    rw [get?_eq_cell? found]
    constructor
    · intro here
      exact ⟨row, column, rfl, here⟩
    · intro ⟨_, _, same, here⟩
      cases same
      exact here

/-- What a lookup answers: a position has the coordinates of the key as labels, and the throughput
is that of the cell at the position, or none if the row ends before it. -/
structure SoundLookup (m : Matrix) (key : Key) : Prop where
  position : ∀ row column, m.position? key = some (row, column) →
    m.Labelled key row column ∧ m.get? key = m.cell? row column
  throughput : ∀ x, m.get? key = some x →
    ∃ row column, m.position? key = some (row, column) ∧ m.cell? row column = some x
  producerCounts : SearchedWithin m.producerCounts key.producerCount
  queueSizes : SearchedWithin m.queueSizes key.queueSize

/-- Lookups are sound in every matrix, and on ascending axes they find every key that is on both, at
the only row and column with its labels. -/
theorem lookups_are_sound (m : Matrix) (key : Key) :
    m.SoundLookup key ∧
      (m.producerCounts.Pairwise (· < ·) → m.queueSizes.Pairwise (· < ·) →
        ((m.position? key).isSome ↔
          key.producerCount ∈ m.producerCounts ∧ key.queueSize ∈ m.queueSizes) ∧
        ∀ row column, m.position? key = some (row, column) ↔ m.Labelled key row column) := by
  constructor
  · constructor
    · intro row column found
      exact ⟨labelled_of_position? found, get?_eq_cell? found⟩
    · intro x given
      exact (get?_eq_some_iff m key x).mp given
    · exact searchedWithin m.producerCounts key.producerCount
    · exact searchedWithin m.queueSizes key.queueSize
  · intro producerCounts queueSizes
    have place := position?_iff_labelled (producerCounts.imp Std.compare_eq_lt.mpr)
      (queueSizes.imp Std.compare_eq_lt.mpr) key
    refine ⟨?_, place⟩
    have somewhere := onAxes_iff_labelled m key
    simp only [← place] at somewhere
    unfold OnAxes at somewhere
    rw [somewhere, Option.isSome_iff_exists, Prod.exists]

/-- A matrix with axes in no order and with rows of two lengths. -/
def ragged : Matrix := ⟨[64, 8, 8], [2, 1, 2], [[], [0.5, 1.5, 2.5]]⟩

def raggedText : String :=
  "\x7b\"queueSizes\":[64,8,8],\"producerCounts\":[2,1,2],\"cells\":[[],[0.5,1.5,2.5]]\x7d"

/-- A matrix with ascending axes and without a cell for most of its labels. -/
def clipped : Matrix := ⟨[8, 64], [1, 2], [[0.5]]⟩

theorem lookups_are_sound_ragged :
    Json.Reader.run (reader Json.Reader.documentRoom) raggedText.toUTF8.data.toList = .ok ragged ∧
      (ragged.position? ⟨8, 1⟩ = some (1, 2) ∧ ragged.Labelled ⟨8, 1⟩ 1 2 ∧
        ragged.get? ⟨8, 1⟩ = some 2.5) ∧
      (ragged.position? ⟨8, 2⟩ = some (2, 2) ∧ ragged.Labelled ⟨8, 2⟩ 2 2 ∧
        ragged.get? ⟨8, 2⟩ = none) ∧
      (clipped.producerCounts.Pairwise (· < ·) ∧ clipped.queueSizes.Pairwise (· < ·) ∧
        (clipped.position? ⟨64, 2⟩).isSome ∧ clipped.position? ⟨7, 2⟩ = none ∧
          clipped.Labelled ⟨64, 2⟩ 1 1) := by
  have read : Json.Reader.run (reader Json.Reader.documentRoom)
      raggedText.toUTF8.data.toList = .ok ragged := by
    apply toOption_eq_some.mp
    decide +kernel
  have found : ragged.position? ⟨8, 1⟩ = some (1, 2) := by decide
  have beyond : ragged.position? ⟨8, 2⟩ = some (2, 2) := by decide
  have first := (lookups_are_sound ragged ⟨8, 1⟩).1.position 1 2 found
  have second := (lookups_are_sound ragged ⟨8, 2⟩).1.position 2 2 beyond
  have rows : clipped.producerCounts.Pairwise (· < ·) := by decide
  have columns : clipped.queueSizes.Pairwise (· < ·) := by decide
  have present := (lookups_are_sound clipped ⟨64, 2⟩).2 rows columns
  have absent := (lookups_are_sound clipped ⟨7, 2⟩).2 rows columns
  have placed : (clipped.position? ⟨64, 2⟩).isSome := present.1.mpr (by decide)
  have missing : ¬ (clipped.position? ⟨7, 2⟩).isSome := by
    rw [absent.1]
    decide
  have labelled : clipped.Labelled ⟨64, 2⟩ 1 1 := (present.2 1 1).mp (by decide)
  exact ⟨read, ⟨found, first.1, first.2⟩, ⟨beyond, second.1, second.2⟩,
    ⟨rows, columns, placed, Option.not_isSome_iff_eq_none.mp missing, labelled⟩⟩

end Matrix

end QueueBench
