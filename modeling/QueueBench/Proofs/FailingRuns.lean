import QueueBench.Proofs.FileReports
import QueueBench.Proofs.RepeatedKeys
import QueueBench.Proofs.UsableDocuments
import QueueBench.Proofs.ViewAgreement
import QueueBench.Settings.Toml

set_option autoImplicit false

namespace QueueBench

open Artifact (discover)
open Throughput (contribution document?)

namespace Settings

theorem window_of_fault? {settings : Settings} (faultless : settings.fault? = none) :
    AggregationRule.isValidWindow settings.aggregation.window = true := by
  unfold fault? at faultless
  split at faultless
  · cases faultless
  · rename_i valid
    simpa using valid

theorem fault?_of_ofText {text : String} {settings : Settings}
    (accepted : ofText text = .ok settings) : settings.fault? = none := by
  unfold ofText at accepted
  split at accepted
  · cases accepted
  · split at accepted
    · cases accepted
    · split at accepted
      · cases accepted
      · rename_i faultless
        rw [← Except.ok.inj accepted]
        exact faultless

end Settings

/-- Whether some file is within the limit, parses and has a record. -/
def Throughput.SomeRecord (limit : Nat) (files : List Artifact) : Prop :=
  ∃ a ∈ files, ∃ document, document? limit a.content = some document ∧ document.records ≠ []

theorem Throughput.contribution_eq (limit : Nat) (a : Artifact) :
    contribution limit a =
      ((document? limit a.content).map ThroughputDocument.records).getD [] := by
  unfold contribution
  cases document? limit a.content with
  | none => rfl
  | some document =>
    obtain ⟨results, cpuInfo⟩ := document
    cases results <;> rfl

theorem Throughput.someRecord_iff (limit : Nat) (files : List Artifact) :
    SomeRecord limit files ↔ files.flatMap (contribution limit) ≠ [] := by
  rw [ne_eq, List.flatMap_eq_nil_iff]
  constructor
  · rintro ⟨a, member, document, parsed, present⟩ absent
    have nothing := absent a member
    rw [contribution_eq, parsed] at nothing
    exact present nothing
  · intro present
    by_contra absent
    apply present
    intro a member
    rw [contribution_eq]
    cases parsed : document? limit a.content with
    | none => rfl
    | some document =>
      by_contra some
      exact absent ⟨a, member, document, parsed, some⟩

namespace Dataset

/-- The records of all throughput files, in order of discovery. -/
def mergedRecords (settings : Settings) (listing : List DirEntry) : List ThroughputRecord :=
  (discover .throughput listing).flatMap (contribution settings.maxFileBytes)

section Window

variable {settings : Settings}
  (window : AggregationRule.isValidWindow settings.aggregation.window = true)
include window

/-- Under a valid window the aggregation of records that are there decides alone. -/
theorem aggregateLoaded_eq (input : String) {loaded : Throughput.Loaded}
    (present : loaded.records ≠ []) :
    (aggregateLoaded settings input loaded).value =
      (Aggregation.ofRecords settings.aggregation.duplicates settings.aggregation.mops
        loaded.records).mapError .aggregation := by
  rw [aggregateLoaded_of_present settings input present]
  exact aggregate_eq settings.aggregation window loaded.records

/-- The three ways in which a run over a directory ends. -/
theorem ofDirectory_ends (dir : String) (listing : List DirEntry) :
    let records := mergedRecords settings listing
    let run := (ofDirectory settings dir listing).value
    records = [] ∧ run = .error (.noResults dir) ∨
    (records ≠ [] ∧ settings.aggregation.duplicates = .reject ∧ ∃ key,
      Aggregation.FirstRepeat (records.map (·.key)) key ∧
        run = .error (.aggregation (.duplicateKey key))) ∨
    (records ≠ [] ∧
      (settings.aggregation.duplicates = .reject → (records.map (·.key)).Nodup) ∧
        ∃ dataset, run = .ok dataset) := by
  intro records run
  have merged : (Throughput.loadDirectory settings.maxFileBytes dir listing).value.records =
      records := Throughput.records_loadDirectory settings.maxFileBytes dir listing
  by_cases present : records = []
  · have failed := aggregateLoaded_of_absent settings dir (merged.trans present)
    exact .inl ⟨present, ofDirectory_of_error failed⟩
  · refine .inr ?_
    have decided := aggregateLoaded_eq window dir (merged ▸ present)
    rw [merged] at decided
    cases policy : settings.aggregation.duplicates with
    | lastWriteWins =>
      obtain ⟨a, aggregated, -⟩ :=
        Aggregation.ofRecords_views_agree settings.aggregation.mops records
      rw [policy, aggregated] at decided
      exact .inr ⟨present, nofun, exists_dataset_of_ok decided⟩
    | reject =>
      rcases Aggregation.ofRecords_reject settings.aggregation.mops records with
        ⟨once, a, aggregated⟩ | ⟨key, again, failed⟩
      · rw [policy, aggregated] at decided
        exact .inr ⟨present, fun _ => once, exists_dataset_of_ok decided⟩
      · rw [policy, failed] at decided
        exact .inl ⟨present, rfl, key, again, ofDirectory_of_error decided⟩

/-- A run that keeps the last record of a key succeeds if there is a record. -/
theorem exists_dataset_of_lastWriteWins (policy : settings.aggregation.duplicates = .lastWriteWins)
    {listing : List DirEntry} (present : mergedRecords settings listing ≠ []) (dir : String) :
    ∃ dataset, (ofDirectory settings dir listing).value = .ok dataset := by
  rcases ofDirectory_ends window dir listing with ⟨absent, -⟩ | ⟨-, rejects, -⟩ | ⟨-, -, succeeds⟩
  · exact absurd absent present
  · rw [policy] at rejects
    cases rejects
  · exact succeeds

end Window

/-- A run over a directory with accepted settings fails for want of records, or else at the first
key that comes again where that is rejected, and for no other reason. -/
theorem directory_run_failures {text : String} {settings : Settings}
    (accepted : Settings.ofText text = .ok settings) (dir : String) (listing : List DirEntry) :
    let files := discover .throughput listing
    let keys := (mergedRecords settings listing).map (·.key)
    let rejects := settings.aggregation.duplicates = .reject
    let run := (ofDirectory settings dir listing).value
    (∀ tree : FileTree, tree.list dir = .ok listing → (ofPath settings tree dir).value = run) ∧
    (run = .error (.noResults dir) ↔ ¬ Throughput.SomeRecord settings.maxFileBytes files) ∧
    (Throughput.SomeRecord settings.maxFileBytes files →
      (∀ key, run = .error (.aggregation (.duplicateKey key)) ↔
        rejects ∧ Aggregation.FirstRepeat keys key) ∧
      ((∃ dataset, run = .ok dataset) ↔ ¬ (rejects ∧ ¬ keys.Nodup))) ∧
    (∀ failure, run = .error failure →
      failure = .noResults dir ∨ ∃ key, failure = .aggregation (.duplicateKey key)) := by
  intro files keys rejects run
  have present : Throughput.SomeRecord settings.maxFileBytes files ↔
      mergedRecords settings listing ≠ [] := Throughput.someRecord_iff _ _
  have window := Settings.window_of_fault? (Settings.fault?_of_ofText accepted)
  refine ⟨fun tree listed => by rw [ofPath_eq_ofDirectory settings listed], ?_⟩
  rw [present]
  rcases ofDirectory_ends window dir listing with
    ⟨absent, failed⟩ | ⟨found, policy, key, again, failed⟩ | ⟨found, once, dataset, succeeds⟩
  · have ran : run = .error (.noResults dir) := failed
    refine ⟨iff_of_true ran (not_not.mpr absent), fun found => absurd absent found, ?_⟩
    intro failure same
    exact .inl (Except.error.inj (same.symm.trans ran))
  · have ran : run = .error (.aggregation (.duplicateKey key)) := failed
    rw [ran]
    refine ⟨iff_of_false nofun (not_not.mpr found), fun _ => ⟨?_, ?_⟩, ?_⟩
    · intro key'
      constructor
      · intro same
        cases same
        exact ⟨policy, again⟩
      · rintro ⟨-, again'⟩
        rw [again.unique again']
    · exact iff_of_false nofun (not_not.mpr ⟨policy, again.not_nodup⟩)
    · intro failure same
      exact .inr ⟨key, (Except.error.inj same).symm⟩
  · have ran : run = .ok dataset := succeeds
    rw [ran]
    refine ⟨iff_of_false nofun (not_not.mpr found), fun _ => ⟨?_, ?_⟩, nofun⟩
    · intro key
      refine iff_of_false nofun ?_
      rintro ⟨policy, again⟩
      exact again.not_nodup (once policy)
    · exact iff_of_true ⟨dataset, rfl⟩ fun both => both.2 (once both.1)

open Counter (renamed textEntries) in
/-- Two documents with records of one key, under settings that reject that. -/
theorem directory_run_failures_repeated :
    let text := "aggregate.duplicate_policy = \"reject\""
    let settings : Settings := { Settings.standard with aggregation := ⟨0.5, .reject⟩ }
    let listing := textEntries [("benchmark_results_q1_p2.json", renamed),
      ("benchmark_results_q3_p4.json", renamed)]
    Settings.ofText text = .ok settings ∧
      Throughput.SomeRecord settings.maxFileBytes (discover .throughput listing) ∧
      (ofDirectory settings "r" listing).value =
        .error (.aggregation (.duplicateKey ⟨5, 6⟩)) := by
  intro text settings listing
  have accepted : Settings.ofText text = .ok settings := by
    apply toOption_eq_some.mp
    decide +kernel
  have documents : discover .throughput listing =
      [⟨"benchmark_results_q1_p2.json", .exact ⟨1, 2⟩, .ok renamed.toUTF8⟩,
        ⟨"benchmark_results_q3_p4.json", .exact ⟨3, 4⟩, .ok renamed.toUTF8⟩] := by
    apply Artifact.discover_eq
    · rfl
    · decide +kernel
  have merged : (mergedRecords settings listing).map (·.key) = [⟨5, 6⟩, ⟨5, 6⟩] := by
    rw [mergedRecords, documents]
    rfl
  have present : Throughput.SomeRecord settings.maxFileBytes (discover .throughput listing) := by
    rw [Throughput.someRecord_iff]
    intro absent
    rw [mergedRecords, absent] at merged
    cases merged
  obtain ⟨-, -, fails, -⟩ := directory_run_failures accepted "r" listing
  refine ⟨accepted, present, ((fails present).1 ⟨5, 6⟩).mpr ⟨rfl, ?_⟩⟩
  rw [merged]
  exact ⟨[⟨5, 6⟩], [], rfl, List.nodup_singleton _, List.mem_singleton_self _⟩

end Dataset

end QueueBench
