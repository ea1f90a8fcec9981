import QueueBench.Proofs.CrossReference
import QueueBench.Proofs.SingleDocuments
import QueueBench.Proofs.UsableDocuments

set_option autoImplicit false

namespace QueueBench.Throughput

open Artifact (pathIn discover)

theorem isSkipped_documentStatus (document : ThroughputDocument) :
    (documentStatus document).isSkipped = true ↔ document.records = [] := by
  unfold documentStatus
  cases document.records with
  | nil => exact iff_of_true rfl rfl
  | cons r rest => exact iff_of_false nofun nofun

theorem entryOf_eq_noRecords (document : ThroughputDocument) :
    entryOf document = .unusable noRecords ↔ document.records = [] := by
  unfold entryOf
  cases document.records with
  | nil => exact iff_of_true rfl rfl
  | cons r rest => exact iff_of_false nofun nofun

section Read

variable {limit : Nat} {dir : String} {a : Artifact} {document : ThroughputDocument}
  (read : readDocument limit (pathIn dir a.name) a.content = .ok document)
include read

theorem report_of_ok : (Shard.ofArtifact limit dir a).report =
    ⟨pathIn dir a.name, .throughput, .ofName .throughput a.found, document.records.length⟩ := by
  unfold Shard.ofArtifact
  dsimp only
  rw [read]

theorem entryFor_of_ok : entryFor limit dir a = entryOf document := by
  unfold entryFor
  rw [read]

theorem index_of_ok {listing : List DirEntry} {fileKey : Key}
    (decides : deciding? listing fileKey = some a) :
    (loadDirectory limit dir listing).value.index.get? fileKey = some (entryOf document) := by
  rw [get?_index, decides, Option.map_some, entryFor_of_ok read]

end Read

/-- A document that loads has a report in its directory and one of its own, which give the same path
and the same number of records. The one of its own is passed over just if there are no records. The
one in the directory never is, so that the two agree just if there are records; the index of the
directory, where this document decides, calls it unusable just if there are none. -/
theorem reports_agree_on_documents_with_records (limit : Nat) (dir : String)
    (listing : List DirEntry) {place : Nat} {a : Artifact}
    (discovered : (discover .throughput listing)[place]? = some a) {loaded : Loaded}
    (loads : (loadDocument limit (pathIn dir a.name) a.content).value = .ok loaded) :
    let whole := (loadDirectory limit dir listing).value
    ∃ inDirectory alone, whole.sources[place]? = some inDirectory ∧ loaded.sources = [alone] ∧
      inDirectory.path = alone.path ∧ inDirectory.records = alone.records ∧
      alone.records = loaded.records.length ∧
      (alone.status.isSkipped = true ↔ alone.records = 0) ∧
      inDirectory.status = .ofName .throughput a.found ∧ inDirectory.status.isSkipped = false ∧
      (inDirectory.status.isSkipped = alone.status.isSkipped ↔ alone.records ≠ 0) ∧
      ((inDirectory.status.isSkipped = true ↔ inDirectory.records = 0) ↔ alone.records ≠ 0) ∧
      ∀ fileKey, deciding? listing fileKey = some a →
        (whole.index.get? fileKey = some (.unusable noRecords) ↔ alone.records = 0) := by
  intro whole
  obtain ⟨document, read, -⟩ := readDocument_of_loadDocument loads
  have own : loaded = _ := Except.ok.inj (loads.symm.trans (loadDocument_of_ok read))
  have reported : whole.sources[place]? = some (Shard.ofArtifact limit dir a).report := by
    rw [sources_loadDirectory, List.getElem?_map, discovered, Option.map_some]
  have empty : document.records.length = 0 ↔ document.records = [] := List.length_eq_zero_iff
  have passed : (documentStatus document).isSkipped = true ↔ document.records.length = 0 :=
    (isSkipped_documentStatus document).trans empty.symm
  have named := SourceStatus.isSkipped_ofName .throughput a.found
  rw [report_of_ok read] at reported
  refine ⟨_, ⟨pathIn dir a.name, .throughput, documentStatus document, document.records.length⟩,
    reported, by rw [own], rfl, rfl, by rw [own], passed, rfl, named, ?agree, ?counts, ?index⟩
  case agree =>
    rw [named, ne_eq, ← passed, Bool.not_eq_true, eq_comm]
  case counts =>
    rw [named]
    simp only [Bool.false_eq_true, false_iff, ne_eq]
  case index =>
    intro fileKey decides
    rw [index_of_ok read decides, Option.some.injEq, entryOf_eq_noRecords]
    exact empty.symm

open Counter (discover_rival renamed rival textEntries)

/-- A document with one record. -/
theorem reports_agree_on_documents_with_records_renamed :
    let listing := textEntries [("benchmark_results_q1_p2.json", renamed)]
    let a := rival "benchmark_results_q1_p2.json" renamed
    (discover .throughput listing)[0]? = some a ∧
      ∃ loaded, (loadDocument 1000 (pathIn "r" a.name) a.content).value = .ok loaded ∧
        ∃ inDirectory alone,
          (loadDirectory 1000 "r" listing).value.sources[0]? = some inDirectory ∧
          loaded.sources = [alone] ∧ alone.records = 1 ∧
          inDirectory.status.isSkipped = alone.status.isSkipped := by
  intro listing a
  have discovered : (discover .throughput listing)[0]? = some a := by
    rw [discover_rival]
    rfl
  have read : readDocument 1000 (pathIn "r" a.name) a.content =
      .ok ⟨.one ⟨⟨5, 6⟩, 7, ∅⟩, none⟩ := by rfl
  have loads := loadDocument_of_ok read
  obtain ⟨inDirectory, alone, reported, own, -, -, count, -, -, -, agree, -⟩ :=
    reports_agree_on_documents_with_records 1000 "r" listing discovered loads
  have one : alone.records = 1 := count
  have some : alone.records ≠ 0 := by rw [one]; decide
  exact ⟨discovered, _, loads, inDirectory, alone, reported, own, one, agree.mpr some⟩

def emptyBatch : String := "\x7b\"benchmarkResults\":[]\x7d"

/-- An empty batch gives nothing in either way of loading it, and only one of the two reports says
that it was passed over; the index of the directory calls it unusable. -/
theorem emptyBatch_is_not_skipped_in_directory :
    let path := "r/benchmark_results_q1_p2.json"
    let whole :=
      (loadDirectory 1000 "r" (textEntries [("benchmark_results_q1_p2.json", emptyBatch)])).value
    whole.records = [] ∧ whole.sources = [⟨path, .throughput, .resolved ⟨1, 2⟩, 0⟩] ∧
      whole.index.get? ⟨1, 2⟩ = some (.unusable noRecords) ∧
      ∃ loaded, (loadDocument 1000 path (.ok emptyBatch.toUTF8)).value = .ok loaded ∧
        loaded.records = [] ∧ loaded.sources = [⟨path, .throughput, .skipped noRecords, 0⟩] := by
  intro path whole
  have read : readDocument 1000 path (.ok emptyBatch.toUTF8) = .ok ⟨.many [], none⟩ := by rfl
  have merged : whole = Loaded.ofShards [Shard.ofArtifact 1000 "r"
      (rival "benchmark_results_q1_p2.json" emptyBatch)] := by
    show (loadDirectory 1000 "r" _).value = _
    unfold loadDirectory
    rw [discover_rival]
    rfl
  rw [merged]
  exact ⟨rfl, rfl, rfl, _, loadDocument_of_ok read, rfl, rfl⟩

end QueueBench.Throughput
