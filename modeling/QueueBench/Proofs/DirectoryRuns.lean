import QueueBench.Ingest
import QueueBench.Proofs.DirectoryNames
import QueueBench.Proofs.TallySurvivors

set_option autoImplicit false

namespace QueueBench

theorem listAt_eq {tree : FileTree} {dir : String} {listing : List DirEntry}
    (listed : tree.list dir = .ok listing) : listAt tree dir = .ok listing := by
  unfold listAt
  rw [listed]

namespace Aggregation

/-- An aggregation shows what a tally of all keys leaves. -/
theorem ofRecords_eq_ok {policy : DuplicatePolicy} {mops : ThroughputRecord → Float}
    {records : List ThroughputRecord} {a : Aggregation}
    (succeeds : ofRecords policy mops records = .ok a) :
    ∃ t, Tally.empty.addAll policy 0 (records.map (·.key)) = .ok t ∧
      a = ⟨t.series mops records, t.matrix mops records, t.duplicates⟩ := by
  unfold ofRecords at succeeds
  cases ran : Tally.empty.addAll policy 0 (records.map (·.key)) with
  | error e =>
    rw [ran] at succeeds
    cases succeeds
  | ok t =>
    rw [ran] at succeeds
    exact ⟨t, rfl, (Except.ok.inj succeeds).symm⟩

end Aggregation

namespace Dataset

theorem aggregate_eq_ok {rule : AggregationRule} {records : List ThroughputRecord} {a : Aggregation}
    (succeeds : (aggregate rule records).value = .ok a) :
    Aggregation.ofRecords rule.duplicates rule.mops records = .ok a := by
  unfold aggregate at succeeds
  split at succeeds
  · cases succeeds
  · split at succeeds
    · cases succeeds
    · rename_i found
      rw [found, Except.ok.inj succeeds]

/-- Under a valid window the records decide alone. -/
theorem aggregate_eq (rule : AggregationRule)
    (window : AggregationRule.isValidWindow rule.window = true) (records : List ThroughputRecord) :
    (aggregate rule records).value =
      (Aggregation.ofRecords rule.duplicates rule.mops records).mapError .aggregation := by
  have checked : Aggregation.checkRule rule = .ok () := if_pos window
  unfold aggregate
  rw [checked]
  dsimp only
  cases Aggregation.ofRecords rule.duplicates rule.mops records <;> rfl

theorem aggregateLoaded_eq_ok {settings : Settings} {input : String} {loaded : Throughput.Loaded}
    {a : Aggregation} (succeeds : (aggregateLoaded settings input loaded).value = .ok a) :
    (aggregate settings.aggregation loaded.records).value = .ok a := by
  unfold aggregateLoaded at succeeds
  split at succeeds
  · cases succeeds
  · exact succeeds

theorem aggregateLoaded_of_present (settings : Settings) (input : String)
    {loaded : Throughput.Loaded} (present : loaded.records ≠ []) :
    aggregateLoaded settings input loaded = aggregate settings.aggregation loaded.records := by
  unfold aggregateLoaded
  rw [if_neg (by simpa using present)]

theorem aggregateLoaded_of_absent (settings : Settings) (input : String)
    {loaded : Throughput.Loaded} (absent : loaded.records = []) :
    (aggregateLoaded settings input loaded).value = .error (.noResults input) := by
  unfold aggregateLoaded
  rw [absent]
  rfl

section Directory

variable {settings : Settings} {dir : String} {listing : List DirEntry} {dataset : Dataset}

/-- Of a directory only the listing counts. -/
theorem ofPath_eq_ofDirectory {tree : FileTree} (settings : Settings)
    (listed : tree.list dir = .ok listing) :
    ofPath settings tree dir = ofDirectory settings dir listing := by
  have isDirectory := FileTree.isDirectory_iff.mpr ⟨listing, listed⟩
  unfold ofPath
  rw [if_pos isDirectory, listAt_eq listed]
  rfl

theorem ofDirectory_eq_ok (succeeds : (ofDirectory settings dir listing).value = .ok dataset) :
    let loaded := (Throughput.loadDirectory settings.maxFileBytes dir listing).value
    ∃ aggregation, (aggregateLoaded settings dir loaded).value = .ok aggregation ∧
      dataset = (assemble loaded aggregation (loadTraces settings dir listing).value
        (loadCounters settings dir loaded.index listing).value).value := by
  intro loaded
  unfold ofDirectory at succeeds
  rw [Logged.value_bind, Logged.value_bind] at succeeds
  cases ran : (aggregateLoaded settings dir loaded).value with
  | error failure =>
    rw [ran] at succeeds
    cases succeeds
  | ok aggregation =>
    rw [ran] at succeeds
    exact ⟨aggregation, rfl, (Except.ok.inj succeeds).symm⟩

theorem ofDirectory_of_error {failure : Failure}
    (failed : (aggregateLoaded settings dir
      (Throughput.loadDirectory settings.maxFileBytes dir listing).value).value = .error failure) :
    (ofDirectory settings dir listing).value = .error failure := by
  unfold ofDirectory
  rw [Logged.value_bind, Logged.value_bind, failed]
  rfl

theorem exists_dataset_of_ok {a : Aggregation}
    (aggregated : (aggregateLoaded settings dir
      (Throughput.loadDirectory settings.maxFileBytes dir listing).value).value = .ok a) :
    ∃ dataset, (ofDirectory settings dir listing).value = .ok dataset := by
  unfold ofDirectory
  rw [Logged.value_bind, Logged.value_bind, aggregated]
  exact ⟨_, rfl⟩

/-- A run succeeds under a valid window if there are records and the policy lets their keys
through. -/
theorem exists_dataset (settings : Settings) (dir : String) {t : Aggregation.Tally}
    (window : AggregationRule.isValidWindow settings.aggregation.window = true)
    (present : (Throughput.loadDirectory settings.maxFileBytes dir listing).value.records ≠ [])
    (counted : Aggregation.Tally.empty.addAll settings.aggregation.duplicates 0
      ((Throughput.loadDirectory settings.maxFileBytes dir listing).value.records.map (·.key)) =
        .ok t) :
    ∃ dataset, (ofDirectory settings dir listing).value = .ok dataset := by
  have checked : Aggregation.checkRule settings.aggregation = .ok () := if_pos window
  have aggregated : ∃ a, (aggregateLoaded settings dir
      (Throughput.loadDirectory settings.maxFileBytes dir listing).value).value = .ok a := by
    rw [aggregateLoaded_of_present settings dir present]
    unfold aggregate Aggregation.ofRecords
    rw [checked, counted]
    exact ⟨_, rfl⟩
  obtain ⟨a, aggregated⟩ := aggregated
  exact exists_dataset_of_ok aggregated

/-- The tally behind the aggregation of a run. -/
theorem tally_of_ofDirectory (succeeds : (ofDirectory settings dir listing).value = .ok dataset) :
    let rule := settings.aggregation
    ∃ t, Aggregation.Tally.empty.addAll rule.duplicates 0 (dataset.throughput.map (·.key)) = .ok t ∧
      dataset.aggregation =
        ⟨t.series rule.mops dataset.throughput, t.matrix rule.mops dataset.throughput,
          t.duplicates⟩ := by
  intro rule
  obtain ⟨aggregation, aggregated, rfl⟩ := ofDirectory_eq_ok succeeds
  exact Aggregation.ofRecords_eq_ok (aggregate_eq_ok (aggregateLoaded_eq_ok aggregated))

end Directory

end Dataset

end QueueBench
