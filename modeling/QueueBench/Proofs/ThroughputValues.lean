import QueueBench.Proofs.AggregationShape

set_option autoImplicit false

namespace QueueBench

namespace Series

/-- All throughputs of a series have a property. -/
structure Every (P : Float → Prop) (s : Series) : Prop where
  byQueueSize : ∀ e ∈ s.byQueueSize.entries, ∀ point ∈ e.2, P point.mops
  byProducerCount : ∀ e ∈ s.byProducerCount.entries, ∀ point ∈ e.2, P point.mops

def mapProducerPoints (f : Float → Float) (points : List ProducerPoint) : List ProducerPoint :=
  points.map fun point => ⟨point.producerCount, f point.mops⟩

def mapQueuePoints (f : Float → Float) (points : List QueuePoint) : List QueuePoint :=
  points.map fun point => ⟨point.queueSize, f point.mops⟩

def mapMops (f : Float → Float) (s : Series) : Series :=
  ⟨s.byQueueSize.mapValues (mapProducerPoints f), s.byProducerCount.mapValues (mapQueuePoints f)⟩

variable {s : Series} {P Q : Float → Prop} {f : Float → Float}

theorem Every.imp (every : s.Every P) (implies : ∀ x, P x → Q x) : s.Every Q where
  byQueueSize e inside point member := implies _ (every.byQueueSize e inside point member)
  byProducerCount e inside point member := implies _ (every.byProducerCount e inside point member)

theorem Every.and (every : s.Every P) (every' : s.Every Q) : s.Every fun x => P x ∧ Q x where
  byQueueSize e inside point member :=
    ⟨every.byQueueSize e inside point member, every'.byQueueSize e inside point member⟩
  byProducerCount e inside point member :=
    ⟨every.byProducerCount e inside point member, every'.byProducerCount e inside point member⟩

theorem every_mapMops (every : s.Every fun x => P (f x)) : (s.mapMops f).Every P := by
  constructor
  · intro e inside point member
    obtain ⟨old, present, rfl⟩ := List.mem_map.mp inside
    obtain ⟨sample, here, rfl⟩ := List.mem_map.mp member
    exact every.byQueueSize old present sample here
  · intro e inside point member
    obtain ⟨old, present, rfl⟩ := List.mem_map.mp inside
    obtain ⟨sample, here, rfl⟩ := List.mem_map.mp member
    exact every.byProducerCount old present sample here

theorem mapMops_eq_self (every : s.Every fun x => f x = x) : s.mapMops f = s := by
  have sizes : s.byQueueSize.mapValues (mapProducerPoints f) = s.byQueueSize := by
    apply Table.mapValues_eq_self
    intro e inside
    apply map_eq_self
    intro point member
    rw [every.byQueueSize e inside point member]
  have counts : s.byProducerCount.mapValues (mapQueuePoints f) = s.byProducerCount := by
    apply Table.mapValues_eq_self
    intro e inside
    apply map_eq_self
    intro point member
    rw [every.byProducerCount e inside point member]
  unfold mapMops
  rw [sizes, counts]

end Series

namespace Matrix

def Every (P : Float → Prop) (m : Matrix) : Prop := ∀ row ∈ m.cells, ∀ x ∈ row, P x

def mapMops (f : Float → Float) (m : Matrix) : Matrix :=
  { m with cells := m.cells.map fun row => row.map f }

variable {m : Matrix} {P : Float → Prop} {f : Float → Float}

theorem every_mapMops (every : m.Every fun x => P (f x)) : (m.mapMops f).Every P := by
  intro row inside x member
  obtain ⟨old, present, rfl⟩ := List.mem_map.mp inside
  obtain ⟨y, here, rfl⟩ := List.mem_map.mp member
  exact every old present y here

theorem mapMops_eq_self (every : m.Every fun x => f x = x) : m.mapMops f = m := by
  have cells : (m.cells.map fun row => row.map f) = m.cells := by
    apply map_eq_self
    intro row inside
    apply map_eq_self
    exact every row inside
  unfold mapMops
  rw [cells]

end Matrix

namespace Aggregation

structure Every (P : Float → Prop) (a : Aggregation) : Prop where
  series : a.series.Every P
  matrix : a.matrix.Every P

def mapMops (f : Float → Float) (a : Aggregation) : Aggregation :=
  ⟨a.series.mapMops f, a.matrix.mapMops f, a.duplicates⟩

/-- Two aggregations that differ at most in their throughputs: they have the same axes, groups with
the same coordinates in the same order, rows of the same length and the same duplicates. -/
structure SameShape (a b : Aggregation) : Prop where
  queueSizes : a.matrix.queueSizes = b.matrix.queueSizes
  producerCounts : a.matrix.producerCounts = b.matrix.producerCounts
  rows : a.matrix.cells.map List.length = b.matrix.cells.map List.length
  byQueueSize : a.series.byQueueSize.entries.map (fun e => (e.1, e.2.map (·.producerCount))) =
    b.series.byQueueSize.entries.map fun e => (e.1, e.2.map (·.producerCount))
  byProducerCount : a.series.byProducerCount.entries.map (fun e => (e.1, e.2.map (·.queueSize))) =
    b.series.byProducerCount.entries.map fun e => (e.1, e.2.map (·.queueSize))
  duplicates : a.duplicates = b.duplicates

variable {a : Aggregation} {P Q : Float → Prop} {f : Float → Float}

theorem Every.imp (every : a.Every P) (implies : ∀ x, P x → Q x) : a.Every Q where
  series := every.series.imp implies
  matrix row inside x member := implies x (every.matrix row inside x member)

theorem Every.and (every : a.Every P) (every' : a.Every Q) : a.Every fun x => P x ∧ Q x where
  series := every.series.and every'.series
  matrix row inside x member := ⟨every.matrix row inside x member, every'.matrix row inside x member⟩

theorem every_mapMops (every : a.Every fun x => P (f x)) : (a.mapMops f).Every P :=
  ⟨Series.every_mapMops every.series, Matrix.every_mapMops every.matrix⟩

theorem mapMops_eq_self (every : a.Every fun x => f x = x) : a.mapMops f = a := by
  unfold mapMops
  rw [Series.mapMops_eq_self every.series, Matrix.mapMops_eq_self every.matrix]

theorem sameShape_mapMops (f : Float → Float) (a : Aggregation) : SameShape (a.mapMops f) a := by
  refine ⟨rfl, rfl, ?_, ?_, ?_, rfl⟩
  · simp [mapMops, Matrix.mapMops, Function.comp_def]
  · simp [mapMops, Series.mapMops, Table.mapValues, Series.mapProducerPoints, Function.comp_def]
  · simp [mapMops, Series.mapMops, Table.mapValues, Series.mapQueuePoints, Function.comp_def]

end Aggregation

theorem Table.mem_entries_of_mem_group {κ α : Type} [Ord κ] [DecidableEq κ] [Std.LawfulEqOrd κ]
    {t : Table κ (List α)} {k : κ} {a : α} (member : a ∈ t.group k) :
    ∃ e ∈ t.entries, a ∈ e.2 := by
  unfold group at member
  cases found : t.get? k with
  | none =>
    rw [found] at member
    cases member
  | some members =>
    rw [found] at member
    exact ⟨(k, members), (get?_eq_some_iff _ _ _).mp found, member⟩

/-- A sorted group of a run of additions has only what was added. -/
theorem Table.exists_of_mem_grouped {κ α γ : Type} [Ord κ] [DecidableEq κ] [Std.LawfulEqOrd κ]
    [Std.TransOrd κ] {coordinate : γ → κ} {point : γ → α} {items : List γ} {before : α → α → Bool}
    {e : κ × List α} (inside : e ∈ ((items.foldl (fun t c => t.appendTo (coordinate c) (point c))
      (∅ : Table κ (List α))).mapValues (·.mergeSort before)).entries) {a : α} (member : a ∈ e.2) :
    ∃ c ∈ items, point c = a := by
  obtain ⟨-, same⟩ := eq_of_mem_grouped inside
  rw [same, (List.mergeSort_perm _ _).mem_iff] at member
  obtain ⟨c, meant, made⟩ := List.mem_map.mp member
  exact ⟨c, List.mem_of_mem_filter meant, made⟩

/-- A write changes no cell to anything else than what is written. -/
theorem Matrix.mem_cells_place {m : Matrix} {key : Key} {y : Float} {row : List Float} {x : Float}
    (inside : row ∈ (m.place key y).cells) (member : x ∈ row) :
    x = y ∨ ∃ row ∈ m.cells, x ∈ row := by
  unfold place at inside
  cases placed : m.place? key y with
  | none =>
    rw [placed] at inside
    exact .inr ⟨row, inside, member⟩
  | some n =>
    rw [placed] at inside
    simp only [place?, Option.bind_eq_bind, Option.bind_eq_some_iff] at placed
    obtain ⟨_, -, cells, atRow, _, -, same⟩ := placed
    rw [Option.getD_some, ← Option.some.inj same] at inside
    rcases List.mem_or_eq_of_mem_set inside with old | rfl
    · exact .inr ⟨row, old, member⟩
    · rcases List.mem_or_eq_of_mem_set member with old | new
      · exact .inr ⟨cells, List.mem_of_getElem? atRow, old⟩
      · exact .inl new

theorem Matrix.every_foldl_place {α : Type} {P : Float → Prop} {key : α → Key} {value : α → Float}
    {items : List α} {m : Matrix} (every : m.Every P) (all : ∀ a ∈ items, P (value a)) :
    (items.foldl (fun m a => m.place (key a) (value a)) m).Every P := by
  induction items generalizing m with
  | nil => exact every
  | cons a rest ih =>
    obtain ⟨own, later⟩ := List.forall_mem_cons.mp all
    refine ih (fun row inside x member => ?_) later
    rcases mem_cells_place inside member with rfl | ⟨old, present, here⟩
    · exact own
    · exact every old present x here

theorem Matrix.every_zeroed {P : Float → Prop} (zero : P 0) (queueSizes : List UInt64)
    (producerCounts : List UInt32) : (zeroed queueSizes producerCounts).Every P := by
  intro row inside x member
  rw [List.eq_of_mem_replicate inside] at member
  rw [List.eq_of_mem_replicate member]
  exact zero

namespace Aggregation.Tally

variable {t : Tally} {records : List ThroughputRecord} (counted : t.Counts (records.map (·.key)))
  (mops : ThroughputRecord → Float) {P : Float → Prop}
include counted

theorem mem_survivors_iff (r : ThroughputRecord) :
    r ∈ t.survivors records ↔ lastWithKey r.key records = some r := by
  have own : r ∈ t.survivors records ↔
      r ∈ (t.survivors records).filter fun s => s.key = r.key := by
    rw [List.mem_filter, decide_eq_true_iff, and_iff_left rfl]
  rw [own, filter_survivors counted, Option.mem_toList]

theorem every_series_iff : (t.series mops records).Every P ↔
    ∀ r ∈ t.survivors records, P (mops r) := by
  constructor
  · intro every r member
    have sample := series_byQueueSizeAt counted mops r.key
    rw [(mem_survivors_iff counted r).mp member, Option.map_some, Option.toList_some] at sample
    have inside : ⟨r.key.producerCount, mops r⟩ ∈ (t.series mops records).byQueueSizeAt r.key := by
      rw [sample]
      exact List.mem_singleton_self _
    obtain ⟨e, present, here⟩ := Table.mem_entries_of_mem_group (List.mem_of_mem_filter inside)
    have holds := every.byQueueSize e present _ here
    exact holds
  · intro all
    refine ⟨fun e inside point member => ?_, fun e inside point member => ?_⟩
    · unfold series Series.sort at inside
      rw [Series.byQueueSize_foldl_push] at inside
      obtain ⟨r, kept, rfl⟩ := Table.exists_of_mem_grouped inside member
      exact all r kept
    · unfold series Series.sort at inside
      rw [Series.byProducerCount_foldl_push] at inside
      obtain ⟨r, kept, rfl⟩ := Table.exists_of_mem_grouped inside member
      exact all r kept

/-- The last records of the keys decide what holds of all throughputs. -/
theorem every_iff (zero : P 0) : (⟨t.series mops records, t.matrix mops records, t.duplicates⟩ :
    Aggregation).Every P ↔
      ∀ r ∈ records, lastWithKey r.key records = some r → P (mops r) := by
  have counts : (∀ r ∈ t.survivors records, P (mops r)) ↔
      ∀ r ∈ records, lastWithKey r.key records = some r → P (mops r) := by
    simp only [mem_survivors_iff counted]
    exact ⟨fun all r _ last => all r last, fun all r last =>
      all r (key_of_lastWithKey last).1 last⟩
  rw [← counts]
  constructor
  · intro every
    exact (every_series_iff counted mops).mp every.series
  · intro all
    exact ⟨(every_series_iff counted mops).mpr all,
      Matrix.every_foldl_place (Matrix.every_zeroed zero _ _) all⟩

end Aggregation.Tally

end QueueBench
