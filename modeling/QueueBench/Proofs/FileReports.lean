import QueueBench.Proofs.DirectoryRuns
import QueueBench.Proofs.DumpKeys

set_option autoImplicit false

namespace QueueBench

open Artifact (pathIn discover)

/-- A report names a file and its family, and a file that was passed over gave nothing. -/
structure SourceReport.StandsFor (report : SourceReport) (dir : String) (family : Family)
    (a : Artifact) : Prop where
  path : report.path = pathIn dir a.name
  family : report.family = family
  skipped : report.status.isSkipped = true → report.records = 0

namespace SourceStatus

theorem isSkipped_ofName (family : Family) (found : NameKey) :
    (ofName family found).isSkipped = false := by
  cases found <;> rfl

theorem key?_ofName (family : Family) (found : NameKey) :
    (ofName family found).key? = some found.key := by
  cases found <;> rfl

end SourceStatus

namespace Throughput

variable (limit : Nat) (dir : String)

theorem report_standsFor (a : Artifact) :
    (Shard.ofArtifact limit dir a).report.StandsFor dir .throughput a := by
  unfold Shard.ofArtifact
  dsimp only
  cases readDocument limit (pathIn dir a.name) a.content with
  | error failure => exact ⟨rfl, rfl, fun _ => rfl⟩
  | ok document =>
    refine ⟨rfl, rfl, ?_⟩
    intro skipped
    rw [SourceStatus.isSkipped_ofName] at skipped
    cases skipped

theorem records_report (a : Artifact) :
    (Shard.ofArtifact limit dir a).report.records = (contribution limit a).length := by
  rw [← records_ofArtifact limit dir]
  unfold Shard.ofArtifact
  dsimp only
  cases readDocument limit (pathIn dir a.name) a.content <;> rfl

theorem records_loadDirectory (listing : List DirEntry) :
    (loadDirectory limit dir listing).value.records =
      (discover .throughput listing).flatMap (contribution limit) := by
  have merged := records_foldl_add Loaded.empty
    ((discover .throughput listing).map (Shard.ofArtifact limit dir))
  rw [List.flatMap_map] at merged
  simp only [records_ofArtifact] at merged
  exact merged

theorem sources_loadDirectory (listing : List DirEntry) :
    (loadDirectory limit dir listing).value.sources =
      (discover .throughput listing).map fun a => (Shard.ofArtifact limit dir a).report := by
  have merged := sources_foldl_add Loaded.empty
    ((discover .throughput listing).map (Shard.ofArtifact limit dir))
  rw [List.map_map] at merged
  exact merged

end Throughput

namespace ZoneTrace

variable (limit : Nat) (dir : String)

/-- The rows of a file, none if it cannot be read. -/
def rowsOf (a : Artifact) : List ZoneTraceRecord :=
  match readLimited limit (pathIn dir a.name) a.content with
  | .error _ => []
  | .ok bytes => recordsOf a.found.key (Csv.rows bytes)

theorem records_ofArtifact (a : Artifact) :
    (Export.ofArtifact limit dir a).records = rowsOf limit dir a := by
  unfold Export.ofArtifact rowsOf
  dsimp only
  cases readLimited limit (pathIn dir a.name) a.content <;> rfl

theorem report_standsFor (a : Artifact) :
    (Export.ofArtifact limit dir a).report.StandsFor dir .zoneTrace a := by
  unfold Export.ofArtifact
  dsimp only
  cases readLimited limit (pathIn dir a.name) a.content with
  | error failure => exact ⟨rfl, rfl, fun _ => rfl⟩
  | ok bytes =>
    refine ⟨rfl, rfl, ?_⟩
    intro skipped
    rw [SourceStatus.isSkipped_ofName] at skipped
    cases skipped

theorem records_report (a : Artifact) :
    (Export.ofArtifact limit dir a).report.records = (rowsOf limit dir a).length := by
  unfold Export.ofArtifact rowsOf
  dsimp only
  cases readLimited limit (pathIn dir a.name) a.content <;> rfl

theorem key_of_mem_recordsOf {key : Key} {rows : List Csv.Row} {record : ZoneTraceRecord}
    (member : record ∈ recordsOf key rows) : record.key = key := by
  cases rows with
  | nil => cases member
  | cons header rows =>
    obtain ⟨row, -, rfl⟩ := List.mem_map.mp member
    rfl

/-- The rows of a file stand under the key of its report. -/
theorem key_of_mem_rowsOf {a : Artifact} {record : ZoneTraceRecord}
    (member : record ∈ rowsOf limit dir a) :
    (Export.ofArtifact limit dir a).report.status.key? = some record.key := by
  unfold rowsOf at member
  unfold Export.ofArtifact
  dsimp only
  cases read : readLimited limit (pathIn dir a.name) a.content with
  | error failure =>
    rw [read] at member
    cases member
  | ok bytes =>
    rw [read] at member
    rw [key_of_mem_recordsOf member]
    exact SourceStatus.key?_ofName .zoneTrace a.found

theorem records_loadDirectory (listing : List DirEntry) :
    (loadDirectory limit dir listing).value.records =
      (discover .zoneTrace listing).flatMap (rowsOf limit dir) := by
  unfold loadDirectory
  dsimp only
  rw [List.flatMap_map]
  simp only [records_ofArtifact]

theorem sources_loadDirectory (listing : List DirEntry) :
    (loadDirectory limit dir listing).value.sources =
      (discover .zoneTrace listing).map fun a => (Export.ofArtifact limit dir a).report := by
  unfold loadDirectory
  dsimp only
  rw [List.map_map]
  rfl

end ZoneTrace

namespace Counter

variable (catalog : Catalog) (limit : Nat) (dir : String) (index : KeyIndex)

theorem key?_resolve (path : String) (fileKey : Key) :
    (resolve path fileKey index).status.key? = some (resolve path fileKey index).key := by
  unfold resolve
  cases index.get? fileKey with
  | none => rfl
  | some entry => cases entry <;> rfl

theorem report_standsFor (a : Artifact) :
    (Snapshot.ofArtifact catalog limit dir index a).report.StandsFor dir .counter a := by
  unfold Snapshot.ofArtifact
  cases a.found with
  | exact fileKey =>
    dsimp only
    cases readLimited limit (pathIn dir a.name) a.content with
    | error failure => exact ⟨rfl, rfl, fun _ => rfl⟩
    | ok bytes =>
      refine ⟨rfl, rfl, ?_⟩
      intro skipped
      rw [resolve_not_skipped] at skipped
      cases skipped
  | producerDefaulted key => exact ⟨rfl, rfl, fun _ => rfl⟩
  | malformed => exact ⟨rfl, rfl, fun _ => rfl⟩

theorem sources_loadDirectory (listing : List DirEntry) :
    (loadDirectory catalog limit dir index listing).value.sources =
      (discover .counter listing).map fun a =>
        (Snapshot.ofArtifact catalog limit dir index a).report := by
  unfold loadDirectory
  dsimp only
  rw [List.map_map]
  rfl

end Counter

def reportOf (catalog : Catalog) (limit : Nat) (index : KeyIndex) (dir : String) :
    Family → Artifact → SourceReport
  | .throughput, a => (Throughput.Shard.ofArtifact limit dir a).report
  | .zoneTrace, a => (ZoneTrace.Export.ofArtifact limit dir a).report
  | .counter, a => (Counter.Snapshot.ofArtifact catalog limit dir index a).report

theorem reportOf_standsFor (catalog : Catalog) (limit : Nat) (index : KeyIndex) (dir : String)
    (family : Family) (a : Artifact) :
    (reportOf catalog limit index dir family a).StandsFor dir family a := by
  cases family with
  | throughput => exact Throughput.report_standsFor limit dir a
  | zoneTrace => exact ZoneTrace.report_standsFor limit dir a
  | counter => exact Counter.report_standsFor catalog limit dir index a

theorem map_path_reportOf (catalog : Catalog) (limit : Nat) (index : KeyIndex) (dir : String)
    (family : Family) (files : List Artifact) :
    (files.map (reportOf catalog limit index dir family)).map (·.path) =
      files.map fun a => Artifact.pathIn dir a.name := by
  rw [List.map_map]
  exact List.map_congr_left fun a _ => (reportOf_standsFor catalog limit index dir family a).path

namespace Dataset

/-- The files of a family that a run looks at. -/
def lookedAt (settings : Settings) (listing : List DirEntry) : Family → List Artifact
  | .throughput => discover .throughput listing
  | .zoneTrace => if settings.zoneTraces then discover .zoneTrace listing else []
  | .counter => if settings.counters then discover .counter listing else []

def dumpsRead (settings : Settings) (dir : String) (listing : List DirEntry) :
    List Counter.NamedDump :=
  (lookedAt settings listing .counter).filterMap (Counter.named? settings.maxFileBytes dir)

section Parts

variable (settings : Settings) (dir : String) (listing : List DirEntry)

theorem lookedAt_sublist (family : Family) :
    (lookedAt settings listing family).Sublist (discover family listing) := by
  cases family with
  | throughput => exact List.Sublist.refl _
  | zoneTrace =>
    rw [lookedAt]
    split
    · exact List.Sublist.refl _
    · exact List.nil_sublist _
  | counter =>
    rw [lookedAt]
    split
    · exact List.Sublist.refl _
    · exact List.nil_sublist _

variable (index : KeyIndex)

theorem loadTraces_eq : (loadTraces settings dir listing).value =
    ⟨(lookedAt settings listing .zoneTrace).flatMap (ZoneTrace.rowsOf settings.maxFileBytes dir),
      (lookedAt settings listing .zoneTrace).map
        (reportOf settings.metrics settings.maxFileBytes index dir .zoneTrace)⟩ := by
  rw [loadTraces, lookedAt]
  by_cases asked : settings.zoneTraces = true
  · rw [if_pos asked, if_pos asked, ← ZoneTrace.records_loadDirectory]
    exact congrArg (ZoneTrace.Loaded.mk _) (ZoneTrace.sources_loadDirectory _ dir listing)
  · rw [if_neg asked, if_neg asked]
    rfl

theorem loadCounters_eq : (loadCounters settings dir index listing).value =
    ⟨(dumpsRead settings dir listing).map fun dump =>
        ⟨(Counter.resolve dump.path dump.fileKey index).key,
          Dump.extractBytes settings.metrics dump.bytes⟩,
      (lookedAt settings listing .counter).map
        (reportOf settings.metrics settings.maxFileBytes index dir .counter)⟩ := by
  rw [loadCounters, dumpsRead, lookedAt]
  by_cases asked : settings.counters = true
  · rw [if_pos asked, if_pos asked, ← Counter.records_of_named]
    exact congrArg (Counter.Loaded.mk _) (Counter.sources_loadDirectory _ _ dir index listing)
  · rw [if_neg asked, if_neg asked]
    rfl

/-- The reports of the dumps that were read. -/
theorem reports_of_dumpsRead :
    ((lookedAt settings listing .counter).map
        (reportOf settings.metrics settings.maxFileBytes index dir .counter)).filter
        (!·.status.isSkipped) =
      (dumpsRead settings dir listing).map fun dump =>
        ⟨dump.path, .counter, (Counter.resolve dump.path dump.fileKey index).status, 1⟩ := by
  rw [dumpsRead, ← List.filterMap_eq_filter, List.filterMap_map, List.map_filterMap]
  congr 1
  funext a
  exact Counter.report_ofArtifact settings.metrics settings.maxFileBytes dir index a

end Parts

/-- What the lists of a dataset are made of, told from the files that the run looked at. -/
structure MadeFrom (settings : Settings) (dir : String) (listing : List DirEntry)
    (index : KeyIndex) (dataset : Dataset) : Prop where
  throughput : dataset.throughput =
    (lookedAt settings listing .throughput).flatMap (Throughput.contribution settings.maxFileBytes)
  zoneTraces : dataset.zoneTraces =
    (lookedAt settings listing .zoneTrace).flatMap (ZoneTrace.rowsOf settings.maxFileBytes dir)
  counters : dataset.counters = (dumpsRead settings dir listing).map fun dump =>
    ⟨(Counter.resolve dump.path dump.fileKey index).key,
      Dump.extractBytes settings.metrics dump.bytes⟩
  sources :
    let reports := fun family => (lookedAt settings listing family).map
      (reportOf settings.metrics settings.maxFileBytes index dir family)
    dataset.sources = reports .throughput ++ reports .zoneTrace ++ reports .counter

theorem madeFrom_of_ofDirectory {settings : Settings} {dir : String} {listing : List DirEntry}
    {dataset : Dataset} (succeeds : (ofDirectory settings dir listing).value = .ok dataset) :
    MadeFrom settings dir listing
      (Throughput.loadDirectory settings.maxFileBytes dir listing).value.index dataset := by
  obtain ⟨aggregation, -, rfl⟩ := ofDirectory_eq_ok succeeds
  rw [loadTraces_eq settings dir listing
    (Throughput.loadDirectory settings.maxFileBytes dir listing).value.index, loadCounters_eq]
  refine ⟨?_, rfl, rfl, ?_⟩
  · exact Throughput.records_loadDirectory settings.maxFileBytes dir listing
  · unfold assemble
    dsimp only
    rw [Throughput.sources_loadDirectory]
    rfl

def reportsOn (d : Dataset) (family : Family) : List SourceReport :=
  d.sources.filter fun report => report.family = family

theorem MadeFrom.reportsOn {settings : Settings} {dir : String} {listing : List DirEntry}
    {index : KeyIndex} {dataset : Dataset} (made : MadeFrom settings dir listing index dataset)
    (family : Family) :
    dataset.reportsOn family = (lookedAt settings listing family).map
      (reportOf settings.metrics settings.maxFileBytes index dir family) := by
  have block : ∀ f, ((lookedAt settings listing f).map
      (reportOf settings.metrics settings.maxFileBytes index dir f)).filter
        (fun report => report.family = family) =
      if f = family then (lookedAt settings listing f).map
        (reportOf settings.metrics settings.maxFileBytes index dir f) else [] := by
    intro f
    have ofFamily : ∀ report ∈ (lookedAt settings listing f).map
        (reportOf settings.metrics settings.maxFileBytes index dir f), report.family = f := by
      intro report member
      obtain ⟨a, -, rfl⟩ := List.mem_map.mp member
      exact (reportOf_standsFor settings.metrics settings.maxFileBytes index dir f a).family
    split
    · rename_i same
      exact List.filter_eq_self.mpr fun report member => by simp [ofFamily report member, same]
    · rename_i apart
      exact List.filter_eq_nil_iff.mpr fun report member => by simp [ofFamily report member, apart]
  unfold Dataset.reportsOn
  rw [made.sources, List.filter_append, List.filter_append, block, block, block]
  cases family <;> simp

end Dataset

end QueueBench
