import QueueBench.Proofs.Containers
import QueueBench.Proofs.FileReports
import QueueBench.Proofs.RepeatedKeys
import QueueBench.Proofs.UsableDocuments
import QueueBench.Proofs.ViewAgreement

set_option autoImplicit false

namespace QueueBench

open Artifact (discover pathIn)
open Throughput (contribution)

namespace Aggregation

variable {t final : Tally}

/-- A tally that stops at a key seen before has seen every key once. -/
theorem nodup_of_addAll_reject {seen more : List Key} (counted : t.Counts seen) (once : seen.Nodup)
    (ran : t.addAll .reject seen.length more = .ok final) : (seen ++ more).Nodup := by
  rcases Tally.addAll_reject counted once more with ⟨whole, -⟩ | ⟨key, -, stopped⟩
  · exact whole
  · rw [stopped] at ran
    cases ran

/-- A key that was counted lies on both axes, and both groupings hold a sample of it. -/
structure Shows (a : Aggregation) (key : Key) : Prop where
  position : (a.matrix.position? key).isSome = true
  byQueueSize : a.series.byQueueSizeAt key ≠ []
  byProducerCount : a.series.byProducerCountAt key ≠ []

theorem shows_of_mem {records : List ThroughputRecord} (counted : t.Counts (records.map (·.key)))
    (mops : ThroughputRecord → Float) (duplicates : List Key) {r : ThroughputRecord}
    (member : r ∈ records) :
    Shows ⟨t.series mops records, t.matrix mops records, duplicates⟩ r.key := by
  obtain ⟨last, found⟩ := exists_lastWithKey member rfl
  refine ⟨?position, ?byQueueSize, ?byProducerCount⟩
  case position =>
    have cell := Tally.matrix_get? counted mops r.key
    rw [if_pos ⟨⟨r, member, rfl⟩, ⟨r, member, rfl⟩⟩] at cell
    cases placed : (t.matrix mops records).position? r.key with
    | none =>
      rw [Matrix.get?_eq_none placed] at cell
      cases cell
    | some place => rfl
  case byQueueSize =>
    rw [Tally.series_byQueueSizeAt counted mops r.key, found]
    exact List.cons_ne_nil _ _
  case byProducerCount =>
    rw [Tally.series_byProducerCountAt counted mops r.key, found]
    exact List.cons_ne_nil _ _

end Aggregation

namespace Counter

theorem source_of_resolved (limit : Nat) (dir : String) {listing : List DirEntry} {dump : NamedDump}
    {embedded : Key} :
    let found := resolve dump.path dump.fileKey
      (Throughput.loadDirectory limit dir listing).value.index
    found.status = .resolved embedded →
      ∃ a ∈ discover .throughput listing, a.found = .exact dump.fileKey ∧
        ∃ r ∈ contribution limit a, r.key = found.key := by
  intro found resolved
  have decided : (found.key, found.status) = outcome limit dir listing dump :=
    resolve_index_eq limit dir listing dump
  rw [resolved, outcome] at decided
  cases decides : deciding? listing dump.fileKey with
  | none =>
    rw [decides] at decided
    cases congrArg Prod.snd decided
  | some a =>
    obtain ⟨member, named, -⟩ := deciding?_first decides
    rw [decides, keyAndStatus_some] at decided
    refine ⟨a, member, named, ?_⟩
    unfold embedded? at decided
    cases first : (contribution limit a).head? with
    | none =>
      rw [first] at decided
      cases congrArg Prod.snd decided
    | some r =>
      rw [first] at decided
      exact ⟨r, List.mem_of_mem_head? first, (congrArg Prod.fst decided).symm⟩

end Counter

namespace Dataset

def dumpReports (d : Dataset) : List SourceReport :=
  d.sources.filter fun report => report.family = .counter ∧ report.status.isSkipped = false

theorem dumpReports_eq {settings : Settings} {dir : String} {listing : List DirEntry}
    {index : KeyIndex} {dataset : Dataset} (made : MadeFrom settings dir listing index dataset) :
    dataset.dumpReports = (dumpsRead settings dir listing).map fun dump =>
      ⟨dump.path, .counter, (Counter.resolve dump.path dump.fileKey index).status, 1⟩ := by
  have own : dataset.dumpReports = (dataset.reportsOn .counter).filter (!·.status.isSkipped) := by
    unfold dumpReports reportsOn
    rw [List.filter_filter]
    congr 1
    funext report
    simp [Bool.and_comm]
  rw [own, made.reportsOn, reports_of_dumpsRead]

/-- At one place among the dumps that were read, the records and their reports: a dump that was
resolved, and the key of its record. -/
structure ResolvedAt (settings : Settings) (dir : String) (listing : List DirEntry)
    (dataset : Dataset) (place : Nat) (dump : Counter.NamedDump) (key : Key) : Prop where
  read : (dumpsRead settings dir listing)[place]? = some dump
  record : ∃ metrics, dataset.counters[place]? = some ⟨key, metrics⟩
  report : ∃ embedded records,
    dataset.dumpReports[place]? = some ⟨dump.path, .counter, .resolved embedded, records⟩

theorem resolvedAt_of_resolve {settings : Settings} {dir : String} {listing : List DirEntry}
    {index : KeyIndex} {dataset : Dataset} {place : Nat} {dump : Counter.NamedDump} {key : Key}
    (made : MadeFrom settings dir listing index dataset)
    (read : (dumpsRead settings dir listing)[place]? = some dump)
    (answers : index.get? dump.fileKey = some (.resolved key)) :
    ResolvedAt settings dir listing dataset place dump key := by
  have resolved : (Counter.resolve dump.path dump.fileKey index).key = key ∧
      (Counter.resolve dump.path dump.fileKey index).status = .resolved key := by
    unfold Counter.resolve
    rw [answers]
    exact ⟨rfl, rfl⟩
  refine ⟨read, ⟨Dump.extractBytes settings.metrics dump.bytes, ?_⟩, key, 1, ?_⟩
  · rw [made.counters, List.getElem?_map, read, Option.map_some, resolved.1]
  · rw [dumpReports_eq made, List.getElem?_map, read, Option.map_some, resolved.2]

theorem ResolvedAt.source {settings : Settings} {dir : String} {listing : List DirEntry}
    {dataset : Dataset} {place : Nat} {dump : Counter.NamedDump} {key : Key}
    (made : MadeFrom settings dir listing
      (Throughput.loadDirectory settings.maxFileBytes dir listing).value.index dataset)
    (resolved : ResolvedAt settings dir listing dataset place dump key) :
    ∃ a ∈ discover .throughput listing, a.found = .exact dump.fileKey ∧
      ∃ r ∈ contribution settings.maxFileBytes a, r.key = key := by
  obtain ⟨read, ⟨metrics, recorded⟩, embedded, records, reported⟩ := resolved
  rw [made.counters, List.getElem?_map, read, Option.map_some, Option.some.injEq] at recorded
  rw [dumpReports_eq made, List.getElem?_map, read, Option.map_some, Option.some.injEq] at reported
  have status := congrArg SourceReport.status reported
  have own := congrArg CounterRecord.key recorded
  dsimp only at own
  rw [← own]
  exact Counter.source_of_resolved settings.maxFileBytes dir status

/-- If no key stands in two documents, a key leads back to one document and so to one file key. -/
theorem ResolvedAt.fileKey_eq {settings : Settings} {dir : String} {listing : List DirEntry}
    {dataset : Dataset} {place place' : Nat} {dump dump' : Counter.NamedDump} {key : Key}
    (made : MadeFrom settings dir listing
      (Throughput.loadDirectory settings.maxFileBytes dir listing).value.index dataset)
    (once : (dataset.throughput.map (·.key)).Nodup)
    (resolved : ResolvedAt settings dir listing dataset place dump key)
    (resolved' : ResolvedAt settings dir listing dataset place' dump' key) :
    dump.fileKey = dump'.fileKey := by
  obtain ⟨a, here, named, r, inside, ofKey⟩ := resolved.source made
  obtain ⟨a', there, named', r', inside', ofKey'⟩ := resolved'.source made
  rw [made.throughput, List.map_flatMap] at once
  have one : a = a' := by
    apply eq_of_mem_parts once here there (x := key)
    · exact List.mem_map.mpr ⟨r, inside, ofKey⟩
    · exact List.mem_map.mpr ⟨r', inside', ofKey'⟩
  rw [one, named'] at named
  exact (NameKey.exact.inj named).symm

/-- Every resolved dump of a run over a directory has the key of a throughput record, which the
aggregation shows in all its views. If the policy rejects repeated keys, dumps of different file
keys are resolved to different keys. -/
theorem resolved_dumps_point_to_records {settings : Settings} {tree : FileTree} {dir : String}
    {dataset : Dataset} (isDirectory : tree.isDirectory dir = true)
    (succeeds : (ofPath settings tree dir).value = .ok dataset) :
    ∃ listing, tree.list dir = .ok listing ∧
      let dumps := dumpsRead settings dir listing
      let resolvedAt := ResolvedAt settings dir listing dataset
      (dataset.counters.length = dumps.length ∧
        dataset.dumpReports.map (·.path) = dumps.map (·.path)) ∧
      (∀ place dump key, resolvedAt place dump key →
        (∃ r ∈ dataset.throughput, r.key = key) ∧ dataset.aggregation.Shows key) ∧
      (settings.aggregation.duplicates = .reject →
        ∀ place dump key place' dump' key', resolvedAt place dump key →
          resolvedAt place' dump' key' → dump.fileKey ≠ dump'.fileKey → key ≠ key') := by
  obtain ⟨listing, listed⟩ := FileTree.isDirectory_iff.mp isDirectory
  rw [ofPath_eq_ofDirectory settings listed] at succeeds
  have made := madeFrom_of_ofDirectory succeeds
  obtain ⟨t, ran, aggregated⟩ := tally_of_ofDirectory succeeds
  have counted : t.Counts (dataset.throughput.map (·.key)) := by
    simpa only [List.nil_append] using Aggregation.Tally.counts_empty.addAll ran
  refine ⟨listing, listed, ⟨?records, ?reports⟩, ?shown, ?injective⟩
  case records => rw [made.counters, List.length_map]
  case reports =>
    rw [dumpReports_eq made, List.map_map]
    rfl
  case shown =>
    intro place dump key resolved
    obtain ⟨a, member, -, r, inside, rfl⟩ := resolved.source made
    have merged : r ∈ dataset.throughput := by
      rw [made.throughput]
      exact List.mem_flatMap.mpr ⟨a, member, inside⟩
    refine ⟨⟨r, merged, rfl⟩, ?_⟩
    rw [aggregated]
    exact Aggregation.shows_of_mem counted settings.aggregation.mops t.duplicates merged
  case injective =>
    intro policy place dump key place' dump' key' resolved resolved' apart same
    -- The policy let all keys through, so no key stands in two documents.
    have once : (dataset.throughput.map (·.key)).Nodup := by
      rw [policy] at ran
      exact Aggregation.nodup_of_addAll_reject Aggregation.Tally.counts_empty List.nodup_nil ran
    rw [← same] at resolved'
    exact apart (resolved.fileKey_eq made once resolved')

def documentOf (queueSize producerCount : String) : String :=
  "\x7b\"benchmarkResults\":\x7b\"queueSize\":" ++ queueSize ++ ",\"producerCount\":" ++
    producerCount ++ ",\"successfulPops\":9\x7d\x7d"

open Counter (textEntries) in
/-- Two dumps whose documents carry other keys than their names, under a policy that rejects
repeated keys. -/
theorem resolved_dumps_point_to_records_renamed :
    let settings : Settings := { Settings.standard with aggregation := ⟨0.5, .reject⟩ }
    let files := [("benchmark_results_q1_p2.json", documentOf "5" "6"),
      ("benchmark_results_q3_p4.json", documentOf "7" "8"), ("perf_q1_p2.txt", ""),
      ("perf_q3_p4.txt", "")]
    let tree := FileTree.ofTexts files
    tree.isDirectory "r" = true ∧
    ∃ dataset, (ofPath settings tree "r").value = .ok dataset ∧
      ∃ listing, tree.list "r" = .ok listing ∧
        ResolvedAt settings "r" listing dataset 0 ⟨"r/perf_q1_p2.txt", ⟨1, 2⟩, []⟩ ⟨5, 6⟩ ∧
        ResolvedAt settings "r" listing dataset 1 ⟨"r/perf_q3_p4.txt", ⟨3, 4⟩, []⟩ ⟨7, 8⟩ ∧
        (∃ r ∈ dataset.throughput, r.key = ⟨5, 6⟩) ∧ dataset.aggregation.Shows ⟨5, 6⟩ ∧
        (⟨5, 6⟩ : Key) ≠ ⟨7, 8⟩ := by
  intro settings files tree
  have listed : tree.list "r" = .ok (textEntries files) := by rfl
  have documents : discover .throughput (textEntries files) =
      [⟨"benchmark_results_q1_p2.json", .exact ⟨1, 2⟩, .ok (documentOf "5" "6").toUTF8⟩,
        ⟨"benchmark_results_q3_p4.json", .exact ⟨3, 4⟩, .ok (documentOf "7" "8").toUTF8⟩] := by
    apply Artifact.discover_eq
    · rfl
    · decide +kernel
  have dumps : discover .counter (textEntries files) =
      [⟨"perf_q1_p2.txt", .exact ⟨1, 2⟩, .ok "".toUTF8⟩,
        ⟨"perf_q3_p4.txt", .exact ⟨3, 4⟩, .ok "".toUTF8⟩] := by
    apply Artifact.discover_eq
    · rfl
    · decide +kernel
  have records : (Throughput.loadDirectory settings.maxFileBytes "r"
      (textEntries files)).value.records =
        [⟨⟨5, 6⟩, 9, ∅⟩, ⟨⟨7, 8⟩, 9, ∅⟩] := by
    rw [Throughput.records_loadDirectory, documents]
    rfl
  have read : dumpsRead settings "r" (textEntries files) =
      [⟨"r/perf_q1_p2.txt", ⟨1, 2⟩, []⟩, ⟨"r/perf_q3_p4.txt", ⟨3, 4⟩, []⟩] := by
    have asked : lookedAt settings (textEntries files) .counter =
        discover .counter (textEntries files) := rfl
    rw [dumpsRead, asked, dumps]
    rfl
  have isDirectory := FileTree.isDirectory_iff.mpr ⟨_, listed⟩
  obtain ⟨dataset, succeeds⟩ := exists_dataset settings "r" (by decide)
    (by rw [records]; exact List.cons_ne_nil _ _) (by rw [records]; rfl)
  have made := madeFrom_of_ofDirectory succeeds
  have first : ResolvedAt settings "r" (textEntries files) dataset 0
      ⟨"r/perf_q1_p2.txt", ⟨1, 2⟩, []⟩ ⟨5, 6⟩ := by
    apply resolvedAt_of_resolve made
    · rw [read]
      rfl
    · rw [get?_index, deciding?, documents]
      rfl
  have second : ResolvedAt settings "r" (textEntries files) dataset 1
      ⟨"r/perf_q3_p4.txt", ⟨3, 4⟩, []⟩ ⟨7, 8⟩ := by
    apply resolvedAt_of_resolve made
    · rw [read]
      rfl
    · rw [get?_index, deciding?, documents]
      rfl
  rw [← ofPath_eq_ofDirectory settings listed] at succeeds
  obtain ⟨listing, listed', -, shown, injective⟩ :=
    resolved_dumps_point_to_records isDirectory succeeds
  have same := Except.ok.inj (listed.symm.trans listed')
  rw [← same] at shown injective
  have merged := shown 0 _ _ first
  refine ⟨isDirectory, dataset, succeeds, _, listed, first, second, merged.1, merged.2, ?_⟩
  exact injective rfl 0 _ _ 1 _ _ first second (by decide)

end Dataset

end QueueBench
