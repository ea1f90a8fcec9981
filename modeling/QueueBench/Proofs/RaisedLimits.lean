import QueueBench.Proofs.FileReports
import QueueBench.Proofs.SingleDocuments
import QueueBench.Proofs.UsableDocuments

set_option autoImplicit false

namespace QueueBench

open Artifact (pathIn discover)

/-- A file that is longer than a limit allows. -/
def Artifact.Exceeds (limit : Nat) (file : Artifact) : Prop :=
  ∃ bytes, file.content = .ok bytes ∧ limit < bytes.size

theorem readLimited_of_exceeds {limit : Nat} {file : Artifact} (exceeds : file.Exceeds limit)
    (path : String) :
    readLimited limit path file.content = .error (.tooLarge path (limit + 1) limit) := by
  obtain ⟨bytes, held, long⟩ := exceeds
  rw [held]
  exact if_neg (Nat.not_le.mpr long)

theorem readLimited_of_le {low high : Nat} (raised : low ≤ high) {file : Artifact}
    (within : ¬ file.Exceeds low) (path : String) :
    readLimited high path file.content = readLimited low path file.content := by
  cases held : file.content with
  | error fault => rfl
  | ok bytes =>
    have fits : bytes.size ≤ low := by
      apply Nat.le_of_not_lt
      intro long
      exact within ⟨bytes, held, long⟩
    have fits' : bytes.size ≤ high := Nat.le_trans fits raised
    unfold readLimited
    dsimp only
    rw [if_pos fits, if_pos fits']

/-- How one file fares under a limit and a higher one: the same in both, or it exceeds the lower
limit and was passed over there. -/
structure Fares {α : Type} (low : Nat) (file : Artifact) (records records' : List α)
    (report report' : SourceReport) : Prop where
  path : report'.path = report.path
  outcome : records' = records ∧ report' = report ∨
    file.Exceeds low ∧ records = [] ∧ report.status.isSkipped = true

section File

variable {low high : Nat} (raised : low ≤ high) (dir : String) (file : Artifact)
include raised

theorem Throughput.shard_fares :
    Fares low file (Shard.ofArtifact low dir file).records (Shard.ofArtifact high dir file).records
      (Shard.ofArtifact low dir file).report (Shard.ofArtifact high dir file).report := by
  constructor
  case path =>
    rw [(report_standsFor low dir file).path, (report_standsFor high dir file).path]
  case outcome =>
    by_cases exceeds : file.Exceeds low
    · have failed : readDocument low (pathIn dir file.name) file.content =
          .error (.tooLarge (pathIn dir file.name) (low + 1) low) := by
        unfold readDocument
        rw [readLimited_of_exceeds exceeds]
        rfl
      obtain ⟨none, status⟩ := ofArtifact_of_error failed
      exact .inr ⟨exceeds, none, by rw [status]; rfl⟩
    · have same : Shard.ofArtifact high dir file = Shard.ofArtifact low dir file := by
        unfold Shard.ofArtifact readDocument
        dsimp only
        rw [readLimited_of_le raised exceeds]
      rw [same]
      exact .inl ⟨rfl, rfl⟩

theorem ZoneTrace.export_fares :
    Fares low file (Export.ofArtifact low dir file).records
      (Export.ofArtifact high dir file).records (Export.ofArtifact low dir file).report
      (Export.ofArtifact high dir file).report := by
  constructor
  case path =>
    rw [(report_standsFor low dir file).path, (report_standsFor high dir file).path]
  case outcome =>
    by_cases exceeds : file.Exceeds low
    · have failed := readLimited_of_exceeds exceeds (pathIn dir file.name)
      refine .inr ⟨exceeds, ?_, ?_⟩
      · rw [records_ofArtifact, rowsOf, failed]
      · unfold Export.ofArtifact
        dsimp only
        rw [failed]
        rfl
    · have same : Export.ofArtifact high dir file = Export.ofArtifact low dir file := by
        unfold Export.ofArtifact
        dsimp only
        rw [readLimited_of_le raised exceeds]
      rw [same]
      exact .inl ⟨rfl, rfl⟩

theorem Counter.snapshot_fares (catalog : Catalog) (index : KeyIndex) :
    Fares low file (Snapshot.ofArtifact catalog low dir index file).record.toList
      (Snapshot.ofArtifact catalog high dir index file).record.toList
      (Snapshot.ofArtifact catalog low dir index file).report
      (Snapshot.ofArtifact catalog high dir index file).report := by
  constructor
  case path =>
    rw [(report_standsFor catalog low dir index file).path,
      (report_standsFor catalog high dir index file).path]
  case outcome =>
    unfold Snapshot.ofArtifact
    cases file.found with
    | exact fileKey =>
      dsimp only
      by_cases exceeds : file.Exceeds low
      · rw [readLimited_of_exceeds exceeds]
        exact .inr ⟨exceeds, rfl, rfl⟩
      · rw [readLimited_of_le raised exceeds]
        exact .inl ⟨rfl, rfl⟩
    -- a dump without both coordinates is passed over before it is read
    | producerDefaulted key => exact .inl ⟨rfl, rfl⟩
    | malformed => exact .inl ⟨rfl, rfl⟩

end File

/-- How the files of a family fare together: no record is lost, and a report stays as it is unless
the file exceeds the lower limit and was passed over there. -/
structure Grows {α : Type} (low : Nat) (files : List Artifact) (records records' : List α)
    (reports reports' : List SourceReport) : Prop where
  records : records.Sublist records'
  paths : reports'.map (·.path) = reports.map (·.path)
  kept : ∀ (place : Nat) (report : SourceReport), reports[place]? = some report →
    report.status.isSkipped = false → reports'[place]? = some report
  settled : ∀ (place : Nat) (file : Artifact), files[place]? = some file → ¬ file.Exceeds low →
    reports'[place]? = reports[place]?

section Files

variable {α : Type} {low : Nat} {part part' : Artifact → List α}
  {report report' : Artifact → SourceReport}
  (fares : ∀ file, Fares low file (part file) (part' file) (report file) (report' file))
include fares

theorem Fares.sublist_flatMap (files : List Artifact) :
    (files.flatMap part).Sublist (files.flatMap part') := by
  induction files with
  | nil => exact List.Sublist.refl []
  | cons file rest ih =>
    have own : (part file).Sublist (part' file) := by
      rcases (fares file).outcome with same | passed
      · rw [same.1]
      · rw [passed.2.1]
        exact List.nil_sublist (part' file)
    rw [List.flatMap_cons, List.flatMap_cons]
    exact own.append ih

theorem Fares.grows (files : List Artifact) :
    Grows low files (files.flatMap part) (files.flatMap part') (files.map report)
      (files.map report') := by
  constructor
  case records => exact Fares.sublist_flatMap fares files
  case paths =>
    rw [List.map_map, List.map_map]
    exact List.map_congr_left fun file _ => (fares file).path
  case kept =>
    intro place own at_ counted
    rw [List.getElem?_map] at at_ ⊢
    obtain ⟨file, inside, rfl⟩ := Option.map_eq_some_iff.mp at_
    rw [inside, Option.map_some]
    rcases (fares file).outcome with same | passed
    · rw [same.2]
    · rw [passed.2.2] at counted
      cases counted
  case settled =>
    intro place file inside within
    rw [List.getElem?_map, List.getElem?_map, inside, Option.map_some, Option.map_some]
    rcases (fares file).outcome with same | passed
    · rw [same.2]
    · exact absurd passed.1 within

end Files

theorem Counter.records_loadDirectory (catalog : Catalog) (limit : Nat) (dir : String)
    (index : KeyIndex) (listing : List DirEntry) :
    (loadDirectory catalog limit dir index listing).value.records =
      (discover .counter listing).flatMap fun file =>
        (Snapshot.ofArtifact catalog limit dir index file).record.toList := by
  unfold loadDirectory
  dsimp only
  rw [List.filterMap_map, List.filterMap_eq_flatMap_toList]
  rfl

theorem ZoneTrace.loadAt_of_list (limit : Nat) {tree : FileTree} {dir : String}
    {listing : List DirEntry} (listed : tree.list dir = .ok listing) :
    (loadAt limit tree dir).value = .ok (loadDirectory limit dir listing).value := by
  unfold loadAt
  rw [listAt_eq listed]
  rfl

theorem Counter.loadAt_of_list (catalog : Catalog) (limit : Nat) (index : KeyIndex)
    {tree : FileTree} {dir : String} {listing : List DirEntry}
    (listed : tree.list dir = .ok listing) :
    (loadAt catalog limit index tree dir).value =
      .ok (loadDirectory catalog limit dir index listing).value := by
  unfold loadAt
  rw [listAt_eq listed]
  rfl

/-- Whatever a directory holds, loading it under a higher limit gives all records that the lower
limit gave, in the same order, and reports on the same paths. A report that did not pass its file
over stays as it is, and so does every report on a file that does not exceed the lower limit. -/
theorem raised_limits_lose_nothing {low high : Nat} (raised : low ≤ high) (catalog : Catalog)
    (index : KeyIndex) (dir : String) (listing : List DirEntry) :
    let documents := fun limit => (Throughput.loadDirectory limit dir listing).value
    let exports := fun limit => (ZoneTrace.loadDirectory limit dir listing).value
    let dumps := fun limit => (Counter.loadDirectory catalog limit dir index listing).value
    (∀ (tree : FileTree) (limit : Nat), tree.list dir = .ok listing →
      (Throughput.loadDirectoryAt limit tree dir).value = .ok (documents limit) ∧
      (ZoneTrace.loadAt limit tree dir).value = .ok (exports limit) ∧
      (Counter.loadAt catalog limit index tree dir).value = .ok (dumps limit)) ∧
    Grows low (discover .throughput listing) (documents low).records (documents high).records
      (documents low).sources (documents high).sources ∧
    Grows low (discover .zoneTrace listing) (exports low).records (exports high).records
      (exports low).sources (exports high).sources ∧
    Grows low (discover .counter listing) (dumps low).records (dumps high).records
      (dumps low).sources (dumps high).sources := by
  intro documents exports dumps
  refine ⟨?loads, ?documents, ?exports, ?dumps⟩
  case loads =>
    intro tree limit listed
    exact ⟨Throughput.loadDirectoryAt_of_list limit listed, ZoneTrace.loadAt_of_list limit listed,
      Counter.loadAt_of_list catalog limit index listed⟩
  case documents =>
    have grown := Fares.grows (Throughput.shard_fares raised dir) (discover .throughput listing)
    simp only [Throughput.records_ofArtifact, ← Throughput.records_loadDirectory low dir,
      ← Throughput.records_loadDirectory high dir, ← Throughput.sources_loadDirectory] at grown
    exact grown
  case exports =>
    have grown := Fares.grows (ZoneTrace.export_fares raised dir) (discover .zoneTrace listing)
    simp only [ZoneTrace.records_ofArtifact, ← ZoneTrace.records_loadDirectory,
      ← ZoneTrace.sources_loadDirectory] at grown
    exact grown
  case dumps =>
    have grown := Fares.grows (fun file => Counter.snapshot_fares raised dir file catalog index)
      (discover .counter listing)
    simp only [← Counter.records_loadDirectory, ← Counter.sources_loadDirectory] at grown
    exact grown

open Counter (renamed textEntries)

/-- Two documents, one of which has just the size of the lower limit and the other one byte more. -/
theorem raised_limits_lose_nothing_by_a_byte :
    let listing := textEntries [("benchmark_results_q1_p2.json", renamed),
      ("benchmark_results_q3_p4.json", renamed ++ " ")]
    let loaded := fun limit => (Throughput.loadDirectory limit "r" listing).value
    73 ≤ 74 ∧ (loaded 73).records = [⟨⟨5, 6⟩, 7, ∅⟩] ∧
      (loaded 74).records = [⟨⟨5, 6⟩, 7, ∅⟩, ⟨⟨5, 6⟩, 7, ∅⟩] ∧
      Grows 73 (discover .throughput listing) (loaded 73).records (loaded 74).records
        (loaded 73).sources (loaded 74).sources := by
  intro listing loaded
  have documents : discover .throughput listing =
      [⟨"benchmark_results_q1_p2.json", .exact ⟨1, 2⟩, .ok renamed.toUTF8⟩,
        ⟨"benchmark_results_q3_p4.json", .exact ⟨3, 4⟩, .ok (renamed ++ " ").toUTF8⟩] := by
    apply Artifact.discover_eq
    · rfl
    · decide +kernel
  have records : ∀ limit, (loaded limit).records = _ := fun limit =>
    Throughput.records_loadDirectory limit "r" listing
  obtain ⟨-, grown, -, -⟩ := raised_limits_lose_nothing (show 73 ≤ 74 by decide) ∅ ∅ "r" listing
  refine ⟨by decide, ?_, ?_, grown⟩
  · rw [records, documents]
    rfl
  · rw [records, documents]
    rfl

end QueueBench
