import Mathlib.Algebra.Ring.Nat
import QueueBench.Proofs.Containers
import QueueBench.Proofs.FileReports
import QueueBench.Proofs.UsableDocuments

set_option autoImplicit false

namespace QueueBench

open Artifact (discover pathIn)
open Throughput (contribution)

/-- The parts that the counts of reports cut off. -/
def shares {α : Type} (reports : List SourceReport) (records : List α) : List (List α) :=
  (reports.map (·.records)).splitLengths records

section Shares

variable {α : Type} {report : Artifact → SourceReport} {part : Artifact → List α}
  (counts : ∀ a, (report a).records = (part a).length) (files : List Artifact)
include counts

theorem map_records_eq :
    (files.map report).map (·.records) = (files.map part).map List.length := by
  rw [List.map_map, List.map_map]
  exact List.map_congr_left fun a _ => counts a

theorem shares_flatMap : shares (files.map report) (files.flatMap part) = files.map part := by
  rw [shares, map_records_eq counts, List.flatMap_def]
  exact splitLengths_flatten (files.map part)

theorem sum_records_flatMap :
    ((files.map report).map (·.records)).sum = (files.flatMap part).length := by
  rw [map_records_eq counts, List.flatMap_def, List.length_flatten]

end Shares

theorem standsFor_map {dir : String} {family : Family} {report : Artifact → SourceReport}
    (stands : ∀ a, (report a).StandsFor dir family a) (files : List Artifact) :
    (files.map report).Forall₂ (·.StandsFor dir family ·) files :=
  List.forall₂_map_left_iff.mpr (List.forall₂_same.mpr fun a _ => stands a)

section Blocks

variable {dir : String} {family : Family} {reports : List SourceReport} {files : List Artifact}
  (stand : reports.Forall₂ (·.StandsFor dir family ·) files)
include stand

theorem map_path_of_standsFor : reports.map (·.path) = files.map fun a => pathIn dir a.name := by
  induction stand with
  | nil => rfl
  | cons first rest ih => rw [List.map_cons, List.map_cons, ih, first.path]

theorem records_of_standsFor {report : SourceReport} (member : report ∈ reports)
    (skipped : report.status.isSkipped = true) : report.records = 0 := by
  induction stand with
  | nil => cases member
  | cons first rest ih =>
    rcases List.mem_cons.mp member with rfl | later
    · exact first.skipped skipped
    · exact ih later

end Blocks

/-- The paths of three blocks differ, since no file is of two families. -/
theorem paths_nodup_of_blocks (settings : Settings) (dir : String) {listing : List DirEntry}
    (distinct : (listing.map (·.name)).Nodup) :
    let paths := fun family => (Dataset.lookedAt settings listing family).map fun a =>
      pathIn dir a.name
    (paths .throughput ++ paths .zoneTrace ++ paths .counter).Nodup := by
  intro paths
  have within : ∀ family, (paths family).Sublist
      ((discover family listing).map fun a => pathIn dir a.name) := fun family =>
    (Dataset.lookedAt_sublist settings listing family).map _
  have once : ∀ family, (paths family).Nodup := fun family =>
    (within family).nodup (Artifact.paths_nodup distinct dir family)
  have apart : ∀ f g, f ≠ g → (paths f).Disjoint (paths g) := by
    intro f g other path here there
    have first := (within f).subset here
    have second := (within g).subset there
    exact Artifact.paths_disjoint listing dir other first second
  have front : (paths .throughput ++ paths .zoneTrace).Nodup :=
    List.nodup_append'.mpr ⟨once _, once _, apart _ _ (by decide)⟩
  have back : (paths .throughput ++ paths .zoneTrace).Disjoint (paths .counter) :=
    List.disjoint_append_left.mpr ⟨apart _ _ (by decide), apart _ _ (by decide)⟩
  exact List.nodup_append'.mpr ⟨front, once _, back⟩

/-- Three blocks of reports that account for a dataset: one report for every file looked at, and
counts that cut the records into the parts of the files. -/
structure Accounts (settings : Settings) (dir : String) (listing : List DirEntry)
    (dataset : Dataset) (documents exports dumps : List SourceReport) : Prop where
  sources : dataset.sources = documents ++ exports ++ dumps
  perDocument : documents.Forall₂ (·.StandsFor dir .throughput ·) (discover .throughput listing)
  perExport : exports.Forall₂ (·.StandsFor dir .zoneTrace ·)
    (if settings.zoneTraces then discover .zoneTrace listing else [])
  perDump : dumps.Forall₂ (·.StandsFor dir .counter ·)
    (if settings.counters then discover .counter listing else [])
  paths : (dataset.sources.map (·.path)).Nodup
  records : shares documents dataset.throughput =
    (discover .throughput listing).map (contribution settings.maxFileBytes)
  allRecords : (documents.map (·.records)).sum = dataset.throughput.length
  rows : shares exports dataset.zoneTraces =
    (if settings.zoneTraces then discover .zoneTrace listing else []).map
      (ZoneTrace.rowsOf settings.maxFileBytes dir)
  rowKeys : exports.Forall₂ (fun report rows => ∀ row ∈ rows, report.status.key? = some row.key)
    (shares exports dataset.zoneTraces)
  allRows : (exports.map (·.records)).sum = dataset.zoneTraces.length
  counters : (dumps.filter (!·.status.isSkipped)).Forall₂
    (fun report record => report.records = 1 ∧ report.status.key? = some record.key)
    dataset.counters
  skipped : ∀ report ∈ dataset.sources, report.status.isSkipped = true → report.records = 0

theorem exists_accounts {settings : Settings} {dir : String} {listing : List DirEntry}
    {index : KeyIndex} {dataset : Dataset}
    (made : Dataset.MadeFrom settings dir listing index dataset)
    (distinct : (listing.map (·.name)).Nodup) :
    ∃ documents exports dumps, Accounts settings dir listing dataset documents exports dumps := by
  let limit := settings.maxFileBytes
  let files := Dataset.lookedAt settings listing
  have block := fun family =>
    standsFor_map (reportOf_standsFor settings.metrics limit index dir family) (files family)
  have rows : shares ((files .zoneTrace).map (reportOf settings.metrics limit index dir .zoneTrace))
      dataset.zoneTraces = (files .zoneTrace).map (ZoneTrace.rowsOf limit dir) := by
    rw [made.zoneTraces]
    exact shares_flatMap (ZoneTrace.records_report limit dir) (files .zoneTrace)
  refine ⟨_, _, _,
    { sources := made.sources, perDocument := block .throughput, perExport := block .zoneTrace,
      perDump := block .counter, paths := ?paths, records := ?records,
      allRecords := ?allRecords, rows, rowKeys := ?rowKeys, allRows := ?allRows,
      counters := ?counters, skipped := ?skipped }⟩
  case paths =>
    rw [made.sources, List.map_append, List.map_append, map_path_of_standsFor (block .throughput),
      map_path_of_standsFor (block .zoneTrace), map_path_of_standsFor (block .counter)]
    exact paths_nodup_of_blocks settings dir distinct
  case records =>
    rw [made.throughput]
    exact shares_flatMap (Throughput.records_report limit dir) (files .throughput)
  case allRecords =>
    rw [made.throughput]
    exact sum_records_flatMap (Throughput.records_report limit dir) (files .throughput)
  case rowKeys =>
    dsimp only
    rw [rows]
    exact forall₂_map_map (fun a row member => ZoneTrace.key_of_mem_rowsOf limit dir member) _
  case allRows =>
    rw [made.zoneTraces]
    exact sum_records_flatMap (ZoneTrace.records_report limit dir) (files .zoneTrace)
  case counters =>
    rw [made.counters, Dataset.reports_of_dumpsRead]
    exact forall₂_map_map (fun dump => ⟨rfl, Counter.key?_resolve index dump.path dump.fileKey⟩) _
  case skipped =>
    intro report member skipped
    rw [made.sources] at member
    rcases List.mem_append.mp member with member | member
    · rcases List.mem_append.mp member with member | member
      · exact records_of_standsFor (block .throughput) member skipped
      · exact records_of_standsFor (block .zoneTrace) member skipped
    · exact records_of_standsFor (block .counter) member skipped

/-- Every file that a run over a directory looks at has one report, and the reports account for all
records of the dataset, block by block. -/
theorem sources_account_for_records {settings : Settings} {tree : FileTree} {dir : String}
    {dataset : Dataset} (distinct : tree.Distinct) (isDirectory : tree.isDirectory dir = true)
    (succeeds : (Dataset.ofPath settings tree dir).value = .ok dataset) :
    ∃ listing, tree.list dir = .ok listing ∧ ∃ documents exports dumps,
      Accounts settings dir listing dataset documents exports dumps := by
  obtain ⟨listing, listed⟩ := FileTree.isDirectory_iff.mp isDirectory
  rw [Dataset.ofPath_eq_ofDirectory settings listed] at succeeds
  have made := Dataset.madeFrom_of_ofDirectory succeeds
  exact ⟨listing, listed, exists_accounts made (distinct.list listed)⟩

open Counter (renamed truncated textEntries) in
/-- Files of every kind, among them a document that breaks off and a dump without a coordinate. -/
theorem sources_account_for_records_mixed :
    let files := [("benchmark_results_q1_p2.json", renamed),
      ("benchmark_results_q3_p4.json", truncated), ("tracy_q1_p2.csv", "name\nalpha\nbeta\n"),
      ("perf_q1.txt", ""), ("perf_q1_p2.txt", "")]
    let tree := FileTree.ofTexts files
    (tree.Distinct ∧ tree.isDirectory "r" = true) ∧
    ∃ dataset, (Dataset.ofPath .standard tree "r").value = .ok dataset ∧
      ∃ listing, tree.list "r" = .ok listing ∧ ∃ documents exports dumps,
        Accounts .standard "r" listing dataset documents exports dumps := by
  intro files tree
  have distinct : tree.Distinct := FileTree.distinct_ofTexts files
  have listed : tree.list "r" = .ok (textEntries files) := by rfl
  have documents : discover .throughput (textEntries files) =
      [⟨"benchmark_results_q1_p2.json", .exact ⟨1, 2⟩, .ok renamed.toUTF8⟩,
        ⟨"benchmark_results_q3_p4.json", .exact ⟨3, 4⟩, .ok truncated.toUTF8⟩] := by
    apply Artifact.discover_eq
    · rfl
    · decide +kernel
  have records : (Throughput.loadDirectory Settings.standard.maxFileBytes "r"
      (textEntries files)).value.records = [⟨⟨5, 6⟩, 7, ∅⟩] := by
    rw [Throughput.records_loadDirectory, documents]
    rfl
  have isDirectory := FileTree.isDirectory_iff.mpr ⟨_, listed⟩
  obtain ⟨dataset, succeeds⟩ := Dataset.exists_dataset .standard "r" (by decide)
    (by rw [records]; exact List.cons_ne_nil _ _) (by rw [records]; rfl)
  rw [← Dataset.ofPath_eq_ofDirectory .standard listed] at succeeds
  exact ⟨⟨distinct, isDirectory⟩, dataset, succeeds,
    sources_account_for_records distinct isDirectory succeeds⟩

end QueueBench
