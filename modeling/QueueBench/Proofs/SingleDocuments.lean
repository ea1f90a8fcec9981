import QueueBench.Proofs.DocumentForms
import QueueBench.Proofs.FailingRuns
import QueueBench.Proofs.FileReports
import QueueBench.Proofs.PathResolution

set_option autoImplicit false

namespace QueueBench

open Artifact (pathIn discover)

/-- The name of an artifact is none of those that a path passes over. -/
theorem Family.plain_of_matchesName {family : Family} {name : String}
    (matched : family.matchesName name = true) :
    FileTree.isDot name.toUTF8.data.toList = false ∧
      FileTree.isUp name.toUTF8.data.toList = false := by
  unfold matchesName at matched
  rw [Bool.and_eq_true, Bool.and_eq_true] at matched
  obtain ⟨rest, split⟩ := List.isPrefixOf_iff_prefix.mp matched.1.2
  rw [Text.Utf8.toUTF8_eq_encode, ← split, Text.Utf8.encode_append]
  cases family with
  | throughput => exact ⟨rfl, rfl⟩
  | zoneTrace => exact ⟨rfl, rfl⟩
  | counter => exact ⟨rfl, rfl⟩

theorem FileTree.Distinct.read_artifact {tree : FileTree} (distinct : tree.Distinct) {dir : String}
    {listing : List DirEntry} (listed : tree.list dir = .ok listing) {family : Family}
    {name : String} {found : NameKey} {content : Except PathFault ByteArray}
    (member : ⟨name, found, content⟩ ∈ discover family listing)
    (plain : '/' ∉ name.toList) :
    tree.isDirectory (pathIn dir name) = false ∧ tree.read (pathIn dir name) = content := by
  obtain ⟨⟨bytes, held⟩, inside, made⟩ := Artifact.mem_discover.mp member
  obtain ⟨holds, named, matched, -⟩ := Artifact.fromEntry_eq_some_iff_toUTF8.mp made
  dsimp only at holds named matched
  rw [holds, named] at inside
  have proper := Family.plain_of_matchesName matched
  obtain ⟨location, resolved⟩ := distinct.resolve_entry listed inside plain proper.1 proper.2
  unfold isDirectory read
  rw [resolved]
  exact ⟨rfl, rfl⟩

namespace Throughput

theorem readDocument_exceeding {limit : Nat} {content : ByteArray} (exceeds : limit < content.size)
    (path : String) :
    readDocument limit path (.ok content) = .error (.tooLarge path (limit + 1) limit) := by
  unfold readDocument readLimited
  dsimp only
  rw [if_neg (Nat.not_le.mpr exceeds)]
  rfl

theorem loadDocument_of_ok {limit : Nat} {path : String} {content : Except PathFault ByteArray}
    {document : ThroughputDocument} (read : readDocument limit path content = .ok document) :
    (loadDocument limit path content).value = .ok ⟨document.records, document.environment, ∅,
      [⟨path, .throughput, documentStatus document, document.records.length⟩]⟩ := by
  unfold loadDocument
  rw [read]

theorem loadDocument_of_error {limit : Nat} {path : String} {content : Except PathFault ByteArray}
    {failure : Failure} (failed : readDocument limit path content = .error failure) :
    (loadDocument limit path content).value = .error failure := by
  unfold loadDocument
  rw [failed]

theorem readDocument_of_loadDocument {limit : Nat} {path : String}
    {content : Except PathFault ByteArray} {loaded : Loaded}
    (succeeds : (loadDocument limit path content).value = .ok loaded) :
    ∃ document, readDocument limit path content = .ok document ∧
      loaded.records = document.records := by
  cases read : readDocument limit path content with
  | error failure =>
    rw [loadDocument_of_error read] at succeeds
    cases succeeds
  | ok document =>
    rw [loadDocument_of_ok read] at succeeds
    cases succeeds
    exact ⟨document, rfl, rfl⟩

/-- What a directory gives of its only document. -/
theorem loadDirectory_single (limit : Nat) (dir : String) {listing : List DirEntry} {a : Artifact}
    (only : discover .throughput listing = [a]) :
    let loaded := (loadDirectory limit dir listing).value
    let shard := Shard.ofArtifact limit dir a
    loaded.records = shard.records ∧ loaded.environment = shard.environment ∧
      loaded.sources = [shard.report] := by
  unfold loadDirectory
  rw [only]
  exact ⟨rfl, rfl, rfl⟩

theorem loadDirectoryAt_of_list (limit : Nat) {tree : FileTree} {dir : String}
    {listing : List DirEntry} (listed : tree.list dir = .ok listing) :
    (loadDirectoryAt limit tree dir).value = .ok (loadDirectory limit dir listing).value := by
  unfold loadDirectoryAt
  rw [listAt_eq listed]
  rfl

theorem ofArtifact_of_ok {limit : Nat} {dir : String} {a : Artifact} {document : ThroughputDocument}
    (read : readDocument limit (pathIn dir a.name) a.content = .ok document) :
    let shard := Shard.ofArtifact limit dir a
    shard.records = document.records ∧ shard.environment = document.environment ∧
      shard.report.status = .ofName .throughput a.found := by
  unfold Shard.ofArtifact
  dsimp only
  rw [read]
  exact ⟨rfl, rfl, rfl⟩

theorem ofArtifact_of_error {limit : Nat} {dir : String} {a : Artifact} {failure : Failure}
    (failed : readDocument limit (pathIn dir a.name) a.content = .error failure) :
    let shard := Shard.ofArtifact limit dir a
    shard.records = [] ∧ shard.report.status = .skipped failure.message := by
  unfold Shard.ofArtifact
  dsimp only
  rw [failed]
  exact ⟨rfl, rfl⟩

end Throughput

namespace Dataset

/-- What a dataset shows of its throughput documents. -/
def ofThroughput (d : Dataset) : Option Json × List ThroughputRecord × Aggregation :=
  (d.environment, d.throughput, d.aggregation)

theorem ofDirectory_map (settings : Settings) (dir : String) (listing : List DirEntry) :
    let loaded := (Throughput.loadDirectory settings.maxFileBytes dir listing).value
    (ofDirectory settings dir listing).value.map ofThroughput =
      (aggregateLoaded settings dir loaded).value.map
        fun a => (loaded.environment, loaded.records, a) := by
  intro loaded
  unfold ofDirectory
  rw [Logged.value_bind, Logged.value_bind]
  cases (aggregateLoaded settings dir loaded).value <;> rfl

theorem ofDocument_map {settings : Settings} {path : String} {content : Except PathFault ByteArray}
    {loaded : Throughput.Loaded}
    (ran : (Throughput.loadDocument settings.maxFileBytes path content).value = .ok loaded) :
    (ofDocument settings path content).value.map ofThroughput =
      (aggregateLoaded settings path loaded).value.map
        fun a => (loaded.environment, loaded.records, a) := by
  unfold ofDocument
  rw [Logged.value_bind, ran]
  dsimp only
  rw [Logged.value_bind]
  cases (aggregateLoaded settings path loaded).value <;> rfl

theorem ofDocument_of_error {settings : Settings} {path : String}
    {content : Except PathFault ByteArray} {failure : Failure}
    (failed : (Throughput.loadDocument settings.maxFileBytes path content).value =
      .error failure) :
    (ofDocument settings path content).value = .error failure := by
  unfold ofDocument
  rw [Logged.value_bind, failed]
  rfl

section Single

variable {dir name : String} {listing : List DirEntry} {found : NameKey} {content : ByteArray}
  (only : discover .throughput listing = [⟨name, found, .ok content⟩])
include only

/-- A document that is read gives both runs the same records to aggregate. -/
theorem runs_agree {settings : Settings} {document : ThroughputDocument}
    (read : Throughput.readDocument settings.maxFileBytes (pathIn dir name) (.ok content) =
      .ok document) (present : document.records ≠ []) :
    (ofDirectory settings dir listing).value.map ofThroughput =
      (ofDocument settings (pathIn dir name) (.ok content)).value.map ofThroughput := by
  obtain ⟨records, environment, -⟩ :=
    Throughput.loadDirectory_single settings.maxFileBytes dir only
  obtain ⟨own, described, -⟩ := Throughput.ofArtifact_of_ok
    (a := ⟨name, found, .ok content⟩) read
  rw [own] at records
  rw [described] at environment
  rw [ofDirectory_map, ofDocument_map (Throughput.loadDocument_of_ok read),
    aggregateLoaded_of_present settings dir (by rw [records]; exact present),
    aggregateLoaded_of_present settings _ present, records, environment]

/-- A document that is too large gives neither run anything to aggregate. -/
theorem runs_fail {settings : Settings} (exceeds : settings.maxFileBytes < content.size) :
    (ofDirectory settings dir listing).value = .error (.noResults dir) ∧
      (ofDocument settings (pathIn dir name) (.ok content)).value =
        .error (.tooLarge (pathIn dir name) (settings.maxFileBytes + 1) settings.maxFileBytes) := by
  have failed := Throughput.readDocument_exceeding exceeds (pathIn dir name)
  obtain ⟨records, -, -⟩ := Throughput.loadDirectory_single settings.maxFileBytes dir only
  have none := (Throughput.ofArtifact_of_error (a := ⟨name, found, .ok content⟩) failed).1
  rw [none] at records
  exact ⟨ofDirectory_of_error (aggregateLoaded_of_absent settings dir records),
    ofDocument_of_error (Throughput.loadDocument_of_error failed)⟩

end Single

open Throughput in
/-- Loading a directory with one throughput document and loading that document by its path agree. A
document that is read gives both the same records and the same description of the host; one that is
not read is passed over in the directory for the very reason for which it fails by itself. A run
over either gives the same environment, records and aggregation or the same failure, under all
settings whose size limit lets a document with records through. -/
theorem directory_agrees_with_its_document {tree : FileTree} (distinct : tree.Distinct)
    {dir name : String} {listing : List DirEntry} {found : NameKey} {content : ByteArray}
    (listed : tree.list dir = .ok listing)
    (only : discover .throughput listing = [⟨name, found, .ok content⟩])
    (plain : '/' ∉ name.toList) :
    let path := pathIn dir name
    (∀ limit, ∃ S report, (loadDirectoryAt limit tree dir).value = .ok S ∧ S.sources = [report] ∧
      ((∃ T, (loadDocumentAt limit tree path).value = .ok T) ↔ report.status.isSkipped = false) ∧
      (∀ T, (loadDocumentAt limit tree path).value = .ok T →
        S.records = T.records ∧ S.environment = T.environment) ∧
      (∀ failure, (loadDocumentAt limit tree path).value = .error failure →
        S.records = [] ∧ report.status = .skipped failure.message)) ∧
    (∀ limit T, (loadDocumentAt limit tree path).value = .ok T → T.records ≠ [] →
      ∀ settings : Settings,
        let inDirectory := (ofPath settings tree dir).value
        let alone := (ofPath settings tree path).value
        (content.size ≤ settings.maxFileBytes →
          inDirectory.map ofThroughput = alone.map ofThroughput) ∧
        (settings.maxFileBytes < content.size →
          inDirectory = .error (.noResults dir) ∧
          alone = .error
            (.tooLarge path (settings.maxFileBytes + 1) settings.maxFileBytes))) := by
  intro path
  have member : ⟨name, found, .ok content⟩ ∈ discover .throughput listing := by
    rw [only]
    exact List.mem_singleton_self _
  obtain ⟨file, held⟩ := distinct.read_artifact listed member plain
  have document_at : ∀ limit, loadDocumentAt limit tree path =
      loadDocument limit path (.ok content) := by
    intro limit
    unfold loadDocumentAt
    rw [held]
  constructor
  · intro limit
    obtain ⟨records, environment, sources⟩ := loadDirectory_single limit dir only
    refine ⟨_, _, loadDirectoryAt_of_list limit listed, sources, ?_⟩
    rw [document_at, records, environment]
    cases read : readDocument limit path (.ok content) with
    | ok document =>
      obtain ⟨own, described, status⟩ := ofArtifact_of_ok
        (a := ⟨name, found, .ok content⟩) read
      rw [loadDocument_of_ok read, own, described, status]
      refine ⟨iff_of_true ⟨_, rfl⟩ (SourceStatus.isSkipped_ofName _ _), ?_, nofun⟩
      rintro T ⟨⟩
      exact ⟨rfl, rfl⟩
    | error failure =>
      obtain ⟨own, status⟩ := ofArtifact_of_error (a := ⟨name, found, .ok content⟩) read
      rw [loadDocument_of_error read, own, status]
      refine ⟨iff_of_false nofun nofun, nofun, ?_⟩
      rintro failure' ⟨⟩
      exact ⟨rfl, rfl⟩
  · intro limit T alone present settings inDirectory byItself
    have whole : inDirectory = (ofDirectory settings dir listing).value :=
      congrArg Logged.value (ofPath_eq_ofDirectory settings listed)
    have single : byItself = (ofDocument settings path (.ok content)).value := by
      show (ofPath settings tree path).value = _
      unfold ofPath
      rw [file, held]
      rfl
    rw [whole, single]
    refine ⟨fun fits => ?_, runs_fail only⟩
    rw [document_at] at alone
    obtain ⟨document, read, records⟩ := readDocument_of_loadDocument alone
    have parsed := (readDocument_eq_ok.mp read).2
    exact runs_agree only (readDocument_eq_ok.mpr ⟨fits, parsed⟩) (records ▸ present)

open Counter (renamed textEntries)

theorem discover_renamed :
    discover .throughput (textEntries [("benchmark_results_q1_p2.json", renamed)]) =
      [⟨"benchmark_results_q1_p2.json", .exact ⟨1, 2⟩, .ok renamed.toUTF8⟩] :=
  Counter.discover_rival renamed

open Throughput in
/-- A directory with one document that has one record. -/
theorem directory_agrees_with_its_document_renamed :
    let files := [("benchmark_results_q1_p2.json", renamed)]
    let tree := FileTree.ofTexts files
    let path := pathIn "r" "benchmark_results_q1_p2.json"
    tree.Distinct ∧ tree.list "r" = .ok (textEntries files) ∧
      discover .throughput (textEntries files) =
        [⟨"benchmark_results_q1_p2.json", .exact ⟨1, 2⟩, .ok renamed.toUTF8⟩] ∧
      '/' ∉ "benchmark_results_q1_p2.json".toList ∧
      (∃ S report, (loadDirectoryAt 1000 tree "r").value = .ok S ∧ S.sources = [report] ∧
        report.status.isSkipped = false ∧ S.records = [⟨⟨5, 6⟩, 7, ∅⟩]) ∧
      (ofPath .standard tree "r").value.map ofThroughput =
        (ofPath .standard tree path).value.map ofThroughput := by
  intro files tree path
  have distinct : tree.Distinct := FileTree.distinct_ofTexts _
  have listed : tree.list "r" = .ok (textEntries files) := by rfl
  have only : discover .throughput (textEntries files) =
      [⟨"benchmark_results_q1_p2.json", .exact ⟨1, 2⟩, .ok renamed.toUTF8⟩] := discover_renamed
  have plain : '/' ∉ "benchmark_results_q1_p2.json".toList := by decide +kernel
  have agreed := directory_agrees_with_its_document distinct listed only plain
  have held := (distinct.read_artifact listed (by rw [only]; exact List.mem_cons_self) plain).2
  have read : readDocument 1000 path (.ok renamed.toUTF8) =
      .ok ⟨.one ⟨⟨5, 6⟩, 7, ∅⟩, none⟩ := by rfl
  have alone := loadDocument_of_ok read
  rw [← held] at alone
  obtain ⟨S, report, whole, sources, usable, same, -⟩ := agreed.1 1000
  have fits : renamed.toUTF8.size ≤ Settings.standard.maxFileBytes := by decide +kernel
  refine ⟨distinct, listed, only, plain, ⟨S, report, whole, sources, usable.mp ⟨_, alone⟩, ?_⟩, ?_⟩
  · exact (same _ alone).1
  · exact (agreed.2 1000 _ alone (List.cons_ne_nil _ _) .standard).1 fits

end Dataset

end QueueBench
