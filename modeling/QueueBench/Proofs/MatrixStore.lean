import QueueBench.Proofs.AxisSearch

set_option autoImplicit false

namespace QueueBench.Matrix

/-- Both axes ascend, and the cells fill the rectangle between them. -/
structure WellFormed (m : Matrix) : Prop where
  producerCounts : m.producerCounts.Pairwise (compare · · = .lt)
  queueSizes : m.queueSizes.Pairwise (compare · · = .lt)
  rows : m.cells.length = m.producerCounts.length
  columns : ∀ row ∈ m.cells, row.length = m.queueSizes.length

/-- Both coordinates of a key are on their axes. -/
def OnAxes (m : Matrix) (key : Key) : Prop :=
  key.producerCount ∈ m.producerCounts ∧ key.queueSize ∈ m.queueSizes

instance (m : Matrix) (key : Key) : Decidable (m.OnAxes key) := inferInstanceAs (Decidable (_ ∧ _))

theorem position?_eq_some_iff_rank (m : Matrix) (key : Key) (row column : Nat) :
    m.position? key = some (row, column) ↔
      rank? m.producerCounts key.producerCount = some row ∧
        rank? m.queueSizes key.queueSize = some column := by
  unfold position?
  cases rank? m.producerCounts key.producerCount with
  | none => simp
  | some r =>
    cases rank? m.queueSizes key.queueSize with
    | none => simp
    | some c => simp

theorem position?_eq_some_iff {m : Matrix} (valid : m.WellFormed) (key : Key) (row column : Nat) :
    m.position? key = some (row, column) ↔
      m.producerCounts[row]? = some key.producerCount ∧
        m.queueSizes[column]? = some key.queueSize := by
  rw [position?_eq_some_iff_rank, rank?_eq_some_iff valid.producerCounts,
    rank?_eq_some_iff valid.queueSizes]

theorem exists_position {m : Matrix} (valid : m.WellFormed) {key : Key} (on : m.OnAxes key) :
    ∃ row column, m.position? key = some (row, column) := by
  obtain ⟨row, atRow⟩ := List.mem_iff_getElem?.mp on.1
  obtain ⟨column, atColumn⟩ := List.mem_iff_getElem?.mp on.2
  exact ⟨row, column, (position?_eq_some_iff valid key row column).mpr ⟨atRow, atColumn⟩⟩

theorem position?_eq_none {m : Matrix} (valid : m.WellFormed) {key : Key} (off : ¬ m.OnAxes key) :
    m.position? key = none := by
  apply Option.eq_none_iff_forall_ne_some.mpr
  rintro ⟨row, column⟩ found
  obtain ⟨atRow, atColumn⟩ := (position?_eq_some_iff valid key row column).mp found
  exact off ⟨List.mem_of_getElem? atRow, List.mem_of_getElem? atColumn⟩

/-- Two keys at one position are one key. -/
theorem position?_inj {m : Matrix} (valid : m.WellFormed) {k l : Key} {place : Nat × Nat}
    (first : m.position? k = some place) (second : m.position? l = some place) : k = l := by
  obtain ⟨row, column⟩ := place
  obtain ⟨kRow, kColumn⟩ := (position?_eq_some_iff valid k row column).mp first
  obtain ⟨lRow, lColumn⟩ := (position?_eq_some_iff valid l row column).mp second
  obtain ⟨kq, kp⟩ := k
  obtain ⟨lq, lp⟩ := l
  simp only at kRow kColumn lRow lColumn
  rw [kRow, Option.some.injEq] at lRow
  rw [kColumn, Option.some.injEq] at lColumn
  rw [lRow, lColumn]

def cell? (m : Matrix) (row column : Nat) : Option Float := m.cells[row]?.bind (·[column]?)

theorem get?_eq_cell? {m : Matrix} {key : Key} {row column : Nat}
    (found : m.position? key = some (row, column)) : m.get? key = m.cell? row column := by
  simp only [get?, found, cell?, Option.bind_eq_bind, Option.bind_some]

theorem get?_eq_none {m : Matrix} {key : Key} (absent : m.position? key = none) :
    m.get? key = none := by
  simp only [get?, absent, Option.bind_eq_bind, Option.bind_none]

/-- Every position of a key lies within the cells. -/
theorem exists_row {m : Matrix} (valid : m.WellFormed) {key : Key} {row column : Nat}
    (found : m.position? key = some (row, column)) :
    ∃ cells, m.cells[row]? = some cells ∧ column < cells.length := by
  obtain ⟨atRow, atColumn⟩ := (position?_eq_some_iff valid key row column).mp found
  obtain ⟨rowInside, -⟩ := List.getElem?_eq_some_iff.mp atRow
  obtain ⟨columnInside, -⟩ := List.getElem?_eq_some_iff.mp atColumn
  have inside : row < m.cells.length := by
    rw [valid.rows]
    exact rowInside
  refine ⟨m.cells[row], List.getElem?_eq_getElem inside, ?_⟩
  rw [valid.columns _ (List.getElem_mem inside)]
  exact columnInside

theorem place_eq_of_position {m : Matrix} {key : Key} {row column : Nat} {cells : List Float}
    (found : m.position? key = some (row, column)) (atRow : m.cells[row]? = some cells)
    (inside : column < cells.length) (x : Float) :
    m.place key x = { m with cells := m.cells.set row (cells.set column x) } := by
  simp only [place, place?, found, atRow, List.getElem?_eq_getElem inside, Option.bind_eq_bind,
    Option.bind_some, Option.pure_def, Option.getD_some]

theorem place_eq_self {m : Matrix} {key : Key} (absent : m.position? key = none) (x : Float) :
    m.place key x = m := by
  simp only [place, place?, absent, Option.bind_eq_bind, Option.bind_none, Option.getD_none]

theorem cell?_set {m : Matrix} {row column : Nat} {cells : List Float}
    (atRow : m.cells[row]? = some cells) (inside : column < cells.length) (x : Float) (i j : Nat) :
    ({ m with cells := m.cells.set row (cells.set column x) } : Matrix).cell? i j =
      if i = row ∧ j = column then some x else m.cell? i j := by
  obtain ⟨rowInside, -⟩ := List.getElem?_eq_some_iff.mp atRow
  unfold cell?
  by_cases sameRow : i = row
  · subst sameRow
    rw [List.getElem?_set_self rowInside, atRow, Option.bind_some, Option.bind_some]
    by_cases sameColumn : j = column
    · subst sameColumn
      rw [List.getElem?_set_self inside, if_pos ⟨rfl, rfl⟩]
    · rw [List.getElem?_set_ne (Ne.symm sameColumn), if_neg (fun both => sameColumn both.2)]
  · rw [List.getElem?_set_ne (Ne.symm sameRow), if_neg (fun both => sameRow both.1)]

theorem axes_place (m : Matrix) (key : Key) (x : Float) :
    (m.place key x).queueSizes = m.queueSizes ∧
      (m.place key x).producerCounts = m.producerCounts := by
  unfold place
  cases placed : m.place? key x with
  | none => exact ⟨rfl, rfl⟩
  | some n =>
    simp only [place?, Option.bind_eq_bind, Option.bind_eq_some_iff] at placed
    obtain ⟨_, -, _, -, _, -, same⟩ := placed
    rw [← Option.some.inj same]
    exact ⟨rfl, rfl⟩

/-- Positions depend on the axes alone. -/
theorem position?_place (m : Matrix) (key other : Key) (x : Float) :
    (m.place key x).position? other = m.position? other := by
  have axes := axes_place m key x
  unfold position?
  rw [axes.1, axes.2]

variable {m : Matrix} (valid : m.WellFormed)
include valid

theorem place_wellFormed (key : Key) (x : Float) : (m.place key x).WellFormed := by
  cases found : m.position? key with
  | none =>
    rw [place_eq_self found]
    exact valid
  | some place =>
    obtain ⟨row, column⟩ := place
    obtain ⟨cells, atRow, inside⟩ := exists_row valid found
    rw [place_eq_of_position found atRow inside]
    refine ⟨valid.producerCounts, valid.queueSizes, ?_, ?_⟩
    · rw [List.length_set]
      exact valid.rows
    · intro other member
      rcases List.mem_or_eq_of_mem_set member with old | new
      · exact valid.columns other old
      · rw [new, List.length_set]
        exact valid.columns cells (List.mem_of_getElem? atRow)

/-- A write is made exactly if the key is on both axes. -/
theorem isSome_place?_iff (key : Key) (x : Float) : (m.place? key x).isSome ↔ m.OnAxes key := by
  cases found : m.position? key with
  | none =>
    have off : ¬ m.OnAxes key := by
      intro on
      obtain ⟨row, column, there⟩ := exists_position valid on
      rw [found] at there
      cases there
    simp [place?, found, off]
  | some place =>
    obtain ⟨row, column⟩ := place
    obtain ⟨atRow, atColumn⟩ := (position?_eq_some_iff valid key row column).mp found
    obtain ⟨cells, inRow, inside⟩ := exists_row valid found
    have on : m.OnAxes key := ⟨List.mem_of_getElem? atRow, List.mem_of_getElem? atColumn⟩
    simp [place?, found, inRow, inside, on]

/-- A write is seen under its own key, if that has a cell, and under no other. -/
theorem get?_place (key other : Key) (x : Float) :
    (m.place key x).get? other =
      if other = key then (m.get? other).map fun _ => x else m.get? other := by
  cases found : m.position? key with
  | none =>
    rw [place_eq_self found]
    by_cases same : other = key
    · rw [if_pos same, same, get?_eq_none found, Option.map_none]
    · rw [if_neg same]
  | some place =>
    obtain ⟨row, column⟩ := place
    obtain ⟨cells, atRow, inside⟩ := exists_row valid found
    cases there : m.position? other with
    | none =>
      have apart : other ≠ key := by
        rintro rfl
        rw [found] at there
        cases there
      rw [if_neg apart, get?_eq_none there,
        get?_eq_none ((position?_place m key other x).trans there)]
    | some position =>
      obtain ⟨i, j⟩ := position
      rw [get?_eq_cell? ((position?_place m key other x).trans there), get?_eq_cell? there,
        place_eq_of_position found atRow inside, cell?_set atRow inside]
      by_cases same : other = key
      · subst same
        rw [found, Option.some.injEq, Prod.mk.injEq] at there
        rw [if_pos ⟨there.1.symm, there.2.symm⟩, if_pos rfl, ← there.1, ← there.2, cell?, atRow,
          Option.bind_some, List.getElem?_eq_getElem inside, Option.map_some]
      · have apart : ¬ (i = row ∧ j = column) := by
          rintro ⟨rfl, rfl⟩
          exact same (position?_inj valid there found)
        rw [if_neg apart, if_neg same]

variable {α : Type} (key : α → Key) (value : α → Float)

theorem foldl_place_wellFormed (items : List α) :
    (items.foldl (fun m a => m.place (key a) (value a)) m).WellFormed := by
  induction items generalizing m with
  | nil => exact valid
  | cons a rest ih => exact ih (place_wellFormed valid (key a) (value a))

omit valid in
theorem axes_foldl_place (items : List α) (m : Matrix) :
    (items.foldl (fun m a => m.place (key a) (value a)) m).queueSizes = m.queueSizes ∧
      (items.foldl (fun m a => m.place (key a) (value a)) m).producerCounts =
        m.producerCounts := by
  induction items generalizing m with
  | nil => exact ⟨rfl, rfl⟩
  | cons a rest ih =>
    have one := axes_place m (key a) (value a)
    have later := ih (m.place (key a) (value a))
    exact ⟨later.1.trans one.1, later.2.trans one.2⟩

/-- After a run a key that has a cell holds what was written last under it, or else what it held. -/
theorem get?_foldl_place (items : List α) (other : Key) :
    (items.foldl (fun m a => m.place (key a) (value a)) m).get? other =
      (m.get? other).map fun old =>
        ((items.filter fun a => key a = other).getLast?.map value).getD old := by
  induction items generalizing m with
  | nil => simp only [List.foldl_nil, List.filter_nil, List.getLast?_nil, Option.map_none,
      Option.getD_none, Option.map_id']
  | cons a rest ih =>
    rw [List.foldl_cons, ih (place_wellFormed valid (key a) (value a)), get?_place valid]
    by_cases same : other = key a
    · rw [if_pos same, List.filter_cons_of_pos (by simp [same]), List.getLast?_cons,
        Option.map_map, Option.map_some]
      congr 1
      funext old
      cases (rest.filter fun a => key a = other).getLast? with
      | none => rfl
      | some last => rfl
    · rw [if_neg same, List.filter_cons_of_neg (by simpa using Ne.symm same)]

omit valid

theorem zeroed_wellFormed {queueSizes : List UInt64} {producerCounts : List UInt32}
    (sizes : queueSizes.Pairwise (compare · · = .lt))
    (counts : producerCounts.Pairwise (compare · · = .lt)) :
    (zeroed queueSizes producerCounts).WellFormed := by
  refine ⟨counts, sizes, List.length_replicate, ?_⟩
  intro row member
  rw [List.eq_of_mem_replicate member]
  exact List.length_replicate

theorem get?_zeroed {queueSizes : List UInt64} {producerCounts : List UInt32}
    (sizes : queueSizes.Pairwise (compare · · = .lt))
    (counts : producerCounts.Pairwise (compare · · = .lt)) (key : Key) :
    (zeroed queueSizes producerCounts).get? key =
      if key.producerCount ∈ producerCounts ∧ key.queueSize ∈ queueSizes then some 0 else none := by
  have valid := zeroed_wellFormed sizes counts
  by_cases on : key.producerCount ∈ producerCounts ∧ key.queueSize ∈ queueSizes
  · obtain ⟨row, column, found⟩ := exists_position valid on
    obtain ⟨cells, atRow, inside⟩ := exists_row valid found
    have zeros : cells = List.replicate queueSizes.length 0 :=
      List.eq_of_mem_replicate (List.mem_of_getElem? atRow)
    rw [if_pos on, get?_eq_cell? found, cell?, atRow, Option.bind_some,
      List.getElem?_eq_getElem inside]
    simp only [zeros, List.getElem_replicate]
  · rw [if_neg on, get?_eq_none (position?_eq_none valid on)]

end QueueBench.Matrix
