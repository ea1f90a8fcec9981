import QueueBench.Proofs.DirectoryRuns
import QueueBench.Proofs.NormalForms
import QueueBench.Proofs.ViewAgreement

set_option autoImplicit false

namespace QueueBench

namespace Table

variable {κ α β : Type} [Ord κ] [DecidableEq κ] [Std.LawfulEqOrd κ] [Std.TransOrd κ]

omit [DecidableEq κ] [Std.LawfulEqOrd κ] in
/-- Tables with keys in common have them in the same order. -/
theorem keys_eq_of_mem_iff {s : Table κ α} {t : Table κ β}
    (same : ∀ k, k ∈ s.keys ↔ k ∈ t.keys) : s.keys = t.keys := by
  have perm : s.keys.Perm t.keys :=
    (List.perm_ext_iff_of_nodup s.keys_nodup t.keys_nodup).mpr same
  refine perm.eq_of_pairwise (fun a b _ _ below above => ?_) s.keys_ascending t.keys_ascending
  rw [Std.OrientedCmp.gt_of_lt below] at above
  cases above

/-- A group of a run of additions has all that was meant for it, and that is something. -/
theorem eq_of_mem_grouped {γ : Type} {coordinate : γ → κ} {point : γ → α} {items : List γ}
    {f : List α → List β} {k : κ} {members : List β}
    (inside : (k, members) ∈
      ((items.foldl (fun t c => t.appendTo (coordinate c) (point c))
        (∅ : Table κ (List α))).mapValues f).entries) :
    k ∈ items.map coordinate ∧
      members = f ((items.filter fun c => coordinate c = k).map point) := by
  have found := (get?_eq_some_iff _ _ _).mpr inside
  rw [get?_mapValues, Option.map_eq_some_iff] at found
  obtain ⟨group, found, rfl⟩ := found
  have present := (mem_keys_iff _ _).mpr (Option.isSome_of_eq_some found)
  rw [mem_keys_foldl_appendTo] at present
  have grouped := group_foldl_appendTo coordinate point items ∅ k
  rw [Table.group, found, Option.getD_some, group_emptyCollection, List.nil_append] at grouped
  refine ⟨present.resolve_left nofun, ?_⟩
  rw [grouped]

end Table

namespace Aggregation

/-- Rectangle and groups are those of a list of keys. -/
structure ShapedBy (a : Aggregation) (keys : List Key) : Prop where
  queueSizes_ascending : a.matrix.queueSizes.Pairwise (· < ·)
  producerCounts_ascending : a.matrix.producerCounts.Pairwise (· < ·)
  mem_queueSizes : ∀ q, q ∈ a.matrix.queueSizes ↔ ∃ key ∈ keys, key.queueSize = q
  mem_producerCounts : ∀ p, p ∈ a.matrix.producerCounts ↔ ∃ key ∈ keys, key.producerCount = p
  rows : a.matrix.cells.length = a.matrix.producerCounts.length
  columns : ∀ row ∈ a.matrix.cells, row.length = a.matrix.queueSizes.length
  queueSizeGroups : a.series.byQueueSize.keys = a.matrix.queueSizes
  producerCountGroups : a.series.byProducerCount.keys = a.matrix.producerCounts
  byQueueSize : ∀ q points, (q, points) ∈ a.series.byQueueSize.entries →
    points ≠ [] ∧ (points.map (·.producerCount)).Pairwise (· < ·)
  byProducerCount : ∀ p points, (p, points) ∈ a.series.byProducerCount.entries →
    points ≠ [] ∧ (points.map (·.queueSize)).Pairwise (· < ·)
  samples : a.series.byQueueSize.values.flatten.length =
    a.series.byProducerCount.values.flatten.length

namespace Tally

variable {t : Tally} {records : List ThroughputRecord} (counted : t.Counts (records.map (·.key)))
  (mops : ThroughputRecord → Float)
include counted

/-- A coordinate of a record is one of a survivor too. -/
theorem mem_coordinates_survivors {β : Type} (coordinate : Key → β) (b : β) :
    b ∈ (t.survivors records).map (fun r => coordinate r.key) ↔
      ∃ key ∈ records.map (·.key), coordinate key = b := by
  have composed : (t.survivors records).map (fun r => coordinate r.key) =
      ((t.survivors records).map (·.key)).map coordinate := by
    rw [List.map_map]
    rfl
  rw [composed, List.mem_map]
  simp only [mem_keys_survivors counted]

/-- Survivors that agree in one coordinate differ in the other. -/
theorem nodup_coordinate_survivors {κ δ : Type} [DecidableEq κ] {shared : Key → κ} {other : Key → δ}
    (separate : ∀ k l : Key, shared k = shared l → other k = other l → k = l) (c : κ) :
    (((t.survivors records).filter fun r => shared r.key = c).map fun r => other r.key).Nodup := by
  have once := (List.pairwise_map.mp (nodup_keys_survivors counted)).filter
    fun r => decide (shared r.key = c)
  refine List.pairwise_map.mpr (once.imp_of_mem fun {r r'} member member' apart same => ?_)
  rw [List.mem_filter, decide_eq_true_iff] at member member'
  exact apart (separate _ _ (member.2.trans member'.2.symm) same)

/-- Survivors grouped by one coordinate and sorted by the other: no group is empty, and each ascends
strictly. -/
theorem ascending_group {κ δ α : Type} [Ord κ] [DecidableEq κ] [Std.LawfulEqOrd κ]
    [Std.TransOrd κ] [LE δ] [LT δ] [DecidableLE δ] [Std.IsLinearOrder δ] [Std.LawfulOrderLT δ]
    {shared : Key → κ} {other : Key → δ} {coordinate : α → δ} (point : ThroughputRecord → α)
    (separate : ∀ k l : Key, shared k = shared l → other k = other l → k = l)
    (own : ∀ r, coordinate (point r) = other r.key) {c : κ} {points : List α}
    (inside : (c, points) ∈
      (((t.survivors records).foldl (fun g r => g.appendTo (shared r.key) (point r))
        (∅ : Table κ (List α))).mapValues fun ps =>
          ps.mergeSort fun a b => coordinate a ≤ coordinate b).entries) :
    points ≠ [] ∧ (points.map coordinate).Pairwise (· < ·) := by
  obtain ⟨present, rfl⟩ := Table.eq_of_mem_grouped inside
  refine ⟨?_, ascending_mergeSort coordinate ?_⟩
  · obtain ⟨r, member, same⟩ := List.mem_map.mp present
    have meant : r ∈ (t.survivors records).filter fun r => shared r.key = c :=
      List.mem_filter.mpr ⟨member, decide_eq_true same⟩
    exact List.ne_nil_of_mem
      ((List.mergeSort_perm _ _).mem_iff.mpr (List.mem_map_of_mem (f := point) meant))
  · rw [List.map_map]
    simp only [Function.comp_def, own]
    exact nodup_coordinate_survivors counted separate c

theorem mem_keys_byQueueSize (q : UInt64) :
    q ∈ (t.series mops records).byQueueSize.keys ↔
      ∃ key ∈ records.map (·.key), key.queueSize = q := by
  unfold series Series.sort
  rw [Table.keys_mapValues, Series.byQueueSize_foldl_push, Table.mem_keys_foldl_appendTo,
    ← mem_coordinates_survivors counted]
  exact or_iff_right nofun

theorem mem_keys_byProducerCount (p : UInt32) :
    p ∈ (t.series mops records).byProducerCount.keys ↔
      ∃ key ∈ records.map (·.key), key.producerCount = p := by
  unfold series Series.sort
  rw [Table.keys_mapValues, Series.byProducerCount_foldl_push, Table.mem_keys_foldl_appendTo,
    ← mem_coordinates_survivors counted]
  exact or_iff_right nofun

theorem ascending_byQueueSize {q : UInt64} {points : List ProducerPoint}
    (inside : (q, points) ∈ (t.series mops records).byQueueSize.entries) :
    points ≠ [] ∧ (points.map (·.producerCount)).Pairwise (· < ·) := by
  unfold series Series.sort at inside
  rw [Series.byQueueSize_foldl_push] at inside
  exact ascending_group counted (fun r => ⟨r.key.producerCount, mops r⟩) (fun _ _ => Key.ext)
    (fun _ => rfl) inside

theorem ascending_byProducerCount {p : UInt32} {points : List QueuePoint}
    (inside : (p, points) ∈ (t.series mops records).byProducerCount.entries) :
    points ≠ [] ∧ (points.map (·.queueSize)).Pairwise (· < ·) := by
  unfold series Series.sort at inside
  rw [Series.byProducerCount_foldl_push] at inside
  exact ascending_group counted (fun r => ⟨r.key.queueSize, mops r⟩)
    (fun _ _ first second => Key.ext second first) (fun _ => rfl) inside

omit counted in
theorem axes_matrix (t : Tally) (records : List ThroughputRecord) :
    (t.matrix mops records).queueSizes = t.queueSizes.keys ∧
      (t.matrix mops records).producerCounts = t.producerCounts.keys :=
  Matrix.axes_foldl_place _ mops (t.survivors records) _

omit counted in
theorem matrix_wellFormed (t : Tally) (records : List ThroughputRecord) :
    (t.matrix mops records).WellFormed :=
  Matrix.foldl_place_wellFormed
    (Matrix.zeroed_wellFormed t.queueSizes.keys_ascending t.producerCounts.keys_ascending) _ _ _

omit counted in
theorem length_groupings (t : Tally) (records : List ThroughputRecord) :
    (t.series mops records).byQueueSize.values.flatten.length = (t.survivors records).length ∧
      (t.series mops records).byProducerCount.values.flatten.length =
        (t.survivors records).length :=
  ⟨(Series.length_byQueueSize_sort _).trans (Series.length_byQueueSize_foldl_push _ _ _),
    (Series.length_byProducerCount_sort _).trans (Series.length_byProducerCount_foldl_push _ _ _)⟩

end Tally

/-- Every aggregation that succeeds has the shape of all its records, whatever the policy. -/
theorem aggregations_are_shaped (rule : AggregationRule) (records : List ThroughputRecord)
    (a : Aggregation) (succeeds : (Dataset.aggregate rule records).value = .ok a) :
    a.ShapedBy (records.map (·.key)) := by
  obtain ⟨t, ran, rfl⟩ := ofRecords_eq_ok (Dataset.aggregate_eq_ok succeeds)
  have counted : t.Counts (records.map (·.key)) := by
    simpa only [List.nil_append] using Tally.counts_empty.addAll ran
  obtain ⟨sizes, counts⟩ := Tally.axes_matrix rule.mops t records
  have valid := Tally.matrix_wellFormed rule.mops t records
  obtain ⟨bySize, byCount⟩ := Tally.length_groupings rule.mops t records
  have memSizes (q : UInt64) : q ∈ t.queueSizes.keys ↔
      ∃ key ∈ records.map (·.key), key.queueSize = q := (counted.queueSizes q).trans List.mem_map
  have memCounts (p : UInt32) : p ∈ t.producerCounts.keys ↔
      ∃ key ∈ records.map (·.key), key.producerCount = p :=
    (counted.producerCounts p).trans List.mem_map
  exact {
    queueSizes_ascending := valid.queueSizes.imp Std.compare_eq_lt.mp
    producerCounts_ascending := valid.producerCounts.imp Std.compare_eq_lt.mp
    mem_queueSizes := fun q => sizes ▸ memSizes q
    mem_producerCounts := fun p => counts ▸ memCounts p
    rows := valid.rows
    columns := valid.columns
    queueSizeGroups := sizes ▸ Table.keys_eq_of_mem_iff fun q =>
      (Tally.mem_keys_byQueueSize counted rule.mops q).trans (memSizes q).symm
    producerCountGroups := counts ▸ Table.keys_eq_of_mem_iff fun p =>
      (Tally.mem_keys_byProducerCount counted rule.mops p).trans (memCounts p).symm
    byQueueSize := fun _ _ => Tally.ascending_byQueueSize counted rule.mops
    byProducerCount := fun _ _ => Tally.ascending_byProducerCount counted rule.mops
    samples := bySize.trans byCount.symm }

/-- The first record is replaced, and its coordinates are on the axes all the same. -/
theorem aggregations_are_shaped_repeated :
    ∃ a, (Dataset.aggregate .standard
        [⟨⟨64, 2⟩, 1000, ∅⟩, ⟨⟨32, 1⟩, 500, ∅⟩, ⟨⟨64, 2⟩, 4000, ∅⟩]).value = .ok a ∧
      a.ShapedBy [⟨64, 2⟩, ⟨32, 1⟩, ⟨64, 2⟩] ∧ a.series.byQueueSize.keys = [32, 64] := by
  have window : AggregationRule.isValidWindow AggregationRule.standard.window = true := by decide
  obtain ⟨a, ran, -⟩ := ofRecords_views_agree AggregationRule.standard.mops
    [⟨⟨64, 2⟩, 1000, ∅⟩, ⟨⟨32, 1⟩, 500, ∅⟩, ⟨⟨64, 2⟩, 4000, ∅⟩]
  have succeeds : (Dataset.aggregate .standard
      [⟨⟨64, 2⟩, 1000, ∅⟩, ⟨⟨32, 1⟩, 500, ∅⟩, ⟨⟨64, 2⟩, 4000, ∅⟩]).value = .ok a := by
    rw [Dataset.aggregate_eq _ window]
    exact congrArg (Except.mapError _) ran
  have shaped := aggregations_are_shaped .standard _ a succeeds
  refine ⟨a, succeeds, shaped, ?_⟩
  obtain ⟨t, counted, rfl⟩ := ofRecords_eq_ok ran
  cases counted
  rw [shaped.queueSizeGroups]
  exact (Tally.axes_matrix _ _ _).1

end Aggregation

end QueueBench
