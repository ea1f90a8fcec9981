import QueueBench.Dataset
import QueueBench.Proofs.MatrixStore
import QueueBench.Proofs.SeriesGroups
import QueueBench.Proofs.TallySurvivors

set_option autoImplicit false

namespace QueueBench.Aggregation

open Series

namespace Tally

variable {t : Tally} {records : List ThroughputRecord} (counted : t.Counts (records.map (·.key)))
  (mops : ThroughputRecord → Float) (key : Key)
include counted

theorem series_byQueueSizeAt :
    (t.series mops records).byQueueSizeAt key =
      ((lastWithKey key records).map fun r => ⟨r.key.producerCount, mops r⟩).toList := by
  apply eq_toList_of_perm
  unfold series
  refine (byQueueSizeAt_sort _ key).trans (List.Perm.of_eq ?_)
  rw [byQueueSizeAt_foldl_push, filter_survivors counted]
  cases lastWithKey key records with
  | none => rfl
  | some r => rfl

theorem series_byProducerCountAt :
    (t.series mops records).byProducerCountAt key =
      ((lastWithKey key records).map fun r => ⟨r.key.queueSize, mops r⟩).toList := by
  apply eq_toList_of_perm
  unfold series
  refine (byProducerCountAt_sort _ key).trans (List.Perm.of_eq ?_)
  rw [byProducerCountAt_foldl_push, filter_survivors counted]
  cases lastWithKey key records with
  | none => rfl
  | some r => rfl

omit mops in
theorem mem_axes_iff :
    key.producerCount ∈ t.producerCounts.keys ∧ key.queueSize ∈ t.queueSizes.keys ↔
      (∃ r ∈ records, r.key.queueSize = key.queueSize) ∧
        ∃ r ∈ records, r.key.producerCount = key.producerCount := by
  rw [counted.producerCounts, counted.queueSizes, List.map_map, List.map_map, List.mem_map,
    List.mem_map, and_comm]
  rfl

/-- The cells are those of the axes of all records, whichever records survive. -/
theorem matrix_get? :
    (t.matrix mops records).get? key =
      if (∃ r ∈ records, r.key.queueSize = key.queueSize) ∧
          (∃ r ∈ records, r.key.producerCount = key.producerCount) then
        some (((lastWithKey key records).map mops).getD 0)
      else none := by
  have sizes := t.queueSizes.keys_ascending
  have counts := t.producerCounts.keys_ascending
  have written : (lastWithKey key records).toList.getLast? = lastWithKey key records := by
    cases lastWithKey key records with
    | none => rfl
    | some r => rfl
  unfold matrix
  rw [Matrix.get?_foldl_place (Matrix.zeroed_wellFormed sizes counts), filter_survivors counted,
    Matrix.get?_zeroed sizes counts, written]
  by_cases axes : key.producerCount ∈ t.producerCounts.keys ∧ key.queueSize ∈ t.queueSizes.keys
  · rw [if_pos axes, if_pos ((mem_axes_iff counted key).mp axes), Option.map_some]
  · rw [if_neg axes, if_neg (fun both => axes ((mem_axes_iff counted key).mpr both)),
      Option.map_none]

end Tally

/-- All three views hold the throughput of a record under a key, and the groupings nothing else. -/
structure HoldsOnly (a : Aggregation) (mops : ThroughputRecord → Float) (key : Key)
    (r : ThroughputRecord) : Prop where
  byQueueSize : a.series.byQueueSizeAt key = [⟨key.producerCount, mops r⟩]
  byProducerCount : a.series.byProducerCountAt key = [⟨key.queueSize, mops r⟩]
  cell : a.matrix.get? key = some (mops r)

/-- No grouping holds a sample of a key, and its cell, if both axes have it, is zero. -/
structure HoldsNothing (a : Aggregation) (records : List ThroughputRecord) (key : Key) :
    Prop where
  byQueueSize : a.series.byQueueSizeAt key = []
  byProducerCount : a.series.byProducerCountAt key = []
  cell : a.matrix.get? key =
    if (∃ r ∈ records, r.key.queueSize = key.queueSize) ∧
        (∃ r ∈ records, r.key.producerCount = key.producerCount) then some 0 else none

/-- The views agree whatever the throughput of a record is. -/
theorem ofRecords_views_agree (mops : ThroughputRecord → Float)
    (records : List ThroughputRecord) :
    ∃ a, ofRecords .lastWriteWins mops records = .ok a ∧ ∀ key : Key,
      ((∃ r ∈ records, r.key = key) →
        ∃ r, lastWithKey key records = some r ∧ a.HoldsOnly mops key r) ∧
      ((∀ r ∈ records, r.key ≠ key) → a.HoldsNothing records key) := by
  obtain ⟨t, ran⟩ := Tally.exists_addAll_lastWriteWins (records.map (·.key)) Tally.empty 0
  have counted : t.Counts (records.map (·.key)) := by
    simpa only [List.nil_append] using Tally.counts_empty.addAll ran
  refine ⟨⟨t.series mops records, t.matrix mops records, t.duplicates⟩, ?_, ?_⟩
  · unfold ofRecords
    rw [ran]
    rfl
  intro key
  have bySize := Tally.series_byQueueSizeAt counted mops key
  have byCount := Tally.series_byProducerCountAt counted mops key
  have cell := Tally.matrix_get? counted mops key
  constructor
  · rintro ⟨r, member, same⟩
    obtain ⟨last, found⟩ := exists_lastWithKey member same
    rw [found] at bySize byCount cell
    rw [Option.map_some, (key_of_lastWithKey found).2] at bySize byCount
    have axes : (∃ r ∈ records, r.key.queueSize = key.queueSize) ∧
        ∃ r ∈ records, r.key.producerCount = key.producerCount :=
      ⟨⟨r, member, congrArg Key.queueSize same⟩, r, member, congrArg Key.producerCount same⟩
    rw [if_pos axes] at cell
    exact ⟨last, found, bySize, byCount, cell⟩
  · intro absent
    rw [(lastWithKey_eq_none_iff key records).mpr absent] at bySize byCount cell
    exact ⟨bySize, byCount, cell⟩

/-- Aggregation under a valid window succeeds, and of every key that occurs all views hold the last
record's throughput alone. -/
theorem aggregate_views_agree (rule : AggregationRule)
    (window : AggregationRule.isValidWindow rule.window = true)
    (policy : rule.duplicates = .lastWriteWins) (records : List ThroughputRecord) :
    ∃ a, (Dataset.aggregate rule records).value = .ok a ∧ ∀ key : Key,
      ((∃ r ∈ records, r.key = key) →
        ∃ r, lastWithKey key records = some r ∧ a.HoldsOnly rule.mops key r) ∧
      ((∀ r ∈ records, r.key ≠ key) → a.HoldsNothing records key) := by
  obtain ⟨a, ran, agree⟩ := ofRecords_views_agree rule.mops records
  refine ⟨a, ?_, agree⟩
  have checked : checkRule rule = .ok () := if_pos window
  unfold Dataset.aggregate
  rw [checked, policy]
  dsimp only
  rw [ran]

/-- A key that comes twice, under the standard rule: the earlier record leaves no trace. -/
theorem aggregate_views_agree_repeated :
    AggregationRule.isValidWindow AggregationRule.standard.window = true ∧
      AggregationRule.standard.duplicates = .lastWriteWins ∧
      ∃ a, (Dataset.aggregate .standard
          [⟨⟨64, 2⟩, 1000, ∅⟩, ⟨⟨32, 1⟩, 500, ∅⟩, ⟨⟨64, 2⟩, 4000, ∅⟩]).value = .ok a ∧
        a.HoldsOnly AggregationRule.standard.mops ⟨64, 2⟩ ⟨⟨64, 2⟩, 4000, ∅⟩ := by
  have window : AggregationRule.isValidWindow AggregationRule.standard.window = true := by decide
  obtain ⟨a, ran, agree⟩ := aggregate_views_agree .standard window rfl
    [⟨⟨64, 2⟩, 1000, ∅⟩, ⟨⟨32, 1⟩, 500, ∅⟩, ⟨⟨64, 2⟩, 4000, ∅⟩]
  obtain ⟨r, last, holds⟩ := (agree ⟨64, 2⟩).1 ⟨⟨⟨64, 2⟩, 1000, ∅⟩, by simp, rfl⟩
  have same : r = ⟨⟨64, 2⟩, 4000, ∅⟩ := (Option.some.inj last).symm
  exact ⟨window, rfl, a, ran, same ▸ holds⟩

end QueueBench.Aggregation
