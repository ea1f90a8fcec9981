import QueueBench.Proofs.CrossReference
import QueueBench.Proofs.NameGrammar

set_option autoImplicit false

namespace QueueBench.Counter

open Throughput (readDocument)

/-- The status of a dump that keeps the key of its name. -/
def kept (path : String) (fileKey : Key) (why : String) : SourceStatus :=
  .defaultedKey fileKey ("configuration key unresolved for " ++ path ++ ": " ++ why)

/-- The key and the status of a dump named with a key, told from the deciding file alone. -/
def keyAndStatus (limit : Nat) (dir path : String) (fileKey : Key) :
    Option Artifact → Key × SourceStatus
  | none => (fileKey, kept path fileKey ("no throughput document for " ++ fileKey.label))
  | some document =>
    let unusable (reason : String) : Key × SourceStatus :=
      (fileKey, kept path fileKey
        ("throughput document for " ++ fileKey.label ++ " unusable: " ++ reason))
    match readDocument limit (Artifact.pathIn dir document.name) document.content with
    | .error failure => unusable failure.message
    | .ok read =>
      match read.records with
      | [] => unusable "document carries no benchmark results"
      | first :: _ => (first.key, .resolved first.key)

theorem fallback_eq (path : String) (fileKey : Key) (why : Unresolved) :
    ((Resolution.fallback path fileKey why).key, (Resolution.fallback path fileKey why).status) =
      (fileKey, kept path fileKey why.message) := rfl

theorem resolve_eq (limit : Nat) (dir path : String) (fileKey : Key) (decides : Option Artifact)
    (index : KeyIndex) (answers : index.get? fileKey = decides.map (entryFor limit dir)) :
    ((resolve path fileKey index).key, (resolve path fileKey index).status) =
      keyAndStatus limit dir path fileKey decides := by
  unfold resolve
  rw [answers]
  cases decides with
  | none => exact fallback_eq path fileKey (.noDocument fileKey)
  | some document =>
    rw [Option.map_some]
    unfold entryFor keyAndStatus
    dsimp only
    cases readDocument limit (Artifact.pathIn dir document.name) document.content with
    | error failure => exact fallback_eq path fileKey (.unusable fileKey failure.message)
    | ok read =>
      dsimp only
      unfold Throughput.entryOf
      cases read.records with
      | nil => exact fallback_eq path fileKey (.unusable fileKey Throughput.noRecords)
      | cons first rest => rfl

theorem resolve_not_skipped (path : String) (fileKey : Key) (index : KeyIndex) :
    (resolve path fileKey index).status.isSkipped = false := by
  unfold resolve
  cases index.get? fileKey with
  | none => rfl
  | some entry => cases entry <;> rfl

/-- A dump that can be read and whose name gives both coordinates. -/
structure NamedDump where
  path : String
  fileKey : Key
  bytes : List UInt8

/-- The dump that an artifact is, if its name gives both coordinates and it can be read. -/
def named? (limit : Nat) (dir : String) (a : Artifact) : Option NamedDump :=
  match a.found, readLimited limit (Artifact.pathIn dir a.name) a.content with
  | .exact fileKey, .ok bytes => some ⟨Artifact.pathIn dir a.name, fileKey, bytes⟩
  | _, _ => none

section Snapshots

variable (catalog : Catalog) (limit : Nat) (dir : String) (index : KeyIndex)

theorem record_ofArtifact (a : Artifact) :
    (Snapshot.ofArtifact catalog limit dir index a).record =
      (named? limit dir a).map fun dump =>
        ⟨(resolve dump.path dump.fileKey index).key, Dump.extractBytes catalog dump.bytes⟩ := by
  unfold Snapshot.ofArtifact named?
  cases a.found with
  | exact fileKey =>
    dsimp only
    cases readLimited limit (Artifact.pathIn dir a.name) a.content <;> rfl
  | producerDefaulted key => rfl
  | malformed => rfl

theorem report_ofArtifact (a : Artifact) :
    Option.guard (!·.status.isSkipped) (Snapshot.ofArtifact catalog limit dir index a).report =
      (named? limit dir a).map fun dump =>
        ⟨dump.path, .counter, (resolve dump.path dump.fileKey index).status, 1⟩ := by
  unfold Snapshot.ofArtifact named?
  cases a.found with
  | exact fileKey =>
    dsimp only
    cases readLimited limit (Artifact.pathIn dir a.name) a.content with
    | error failure => rfl
    | ok bytes =>
      rw [Option.map_some]
      apply Option.guard_pos
      rw [resolve_not_skipped]
      rfl
  | producerDefaulted key => rfl
  | malformed => rfl

theorem records_of_named (listing : List DirEntry) :
    (loadDirectory catalog limit dir index listing).value.records =
      ((Artifact.discover .counter listing).filterMap (named? limit dir)).map fun dump =>
        ⟨(resolve dump.path dump.fileKey index).key, Dump.extractBytes catalog dump.bytes⟩ := by
  unfold loadDirectory
  dsimp only
  rw [List.filterMap_map, List.map_filterMap]
  congr 1
  funext a
  exact record_ofArtifact catalog limit dir index a

theorem sources_of_named (listing : List DirEntry) :
    (loadDirectory catalog limit dir index listing).value.sources.filter (!·.status.isSkipped) =
      ((Artifact.discover .counter listing).filterMap (named? limit dir)).map fun dump =>
        ⟨dump.path, .counter, (resolve dump.path dump.fileKey index).status, 1⟩ := by
  unfold loadDirectory
  dsimp only
  rw [← List.filterMap_eq_filter, List.map_map, List.filterMap_map, List.map_filterMap]
  congr 1
  funext a
  exact report_ofArtifact catalog limit dir index a

variable {index}

end Snapshots

section Both

variable (catalog : Catalog) (limit dumpLimit : Nat) (dir : String)

def loadAfterDocuments (listing : List DirEntry) : Logged Loaded :=
  loadDirectory catalog dumpLimit dir (Throughput.loadDirectory limit dir listing).value.index
    listing

/-- The key and the status of a dump, told from the throughput files of its directory. -/
def outcome (listing : List DirEntry) (dump : NamedDump) : Key × SourceStatus :=
  keyAndStatus limit dir dump.path dump.fileKey (deciding? listing dump.fileKey)

theorem resolve_index_eq (listing : List DirEntry) (dump : NamedDump) :
    let index := (Throughput.loadDirectory limit dir listing).value.index
    ((resolve dump.path dump.fileKey index).key, (resolve dump.path dump.fileKey index).status) =
      outcome limit dir listing dump :=
  resolve_eq limit dir dump.path dump.fileKey (deciding? listing dump.fileKey) _
    (get?_index limit dir listing dump.fileKey)

theorem records_of_outcome (listing : List DirEntry) :
    (loadAfterDocuments catalog limit dumpLimit dir listing).value.records =
      ((Artifact.discover .counter listing).filterMap (named? dumpLimit dir)).map fun dump =>
        ⟨(outcome limit dir listing dump).1, Dump.extractBytes catalog dump.bytes⟩ := by
  simp only [← resolve_index_eq]
  exact records_of_named catalog dumpLimit dir _ listing

theorem sources_of_outcome (listing : List DirEntry) :
    (loadAfterDocuments catalog limit dumpLimit dir listing).value.sources.filter
        (!·.status.isSkipped) =
      ((Artifact.discover .counter listing).filterMap (named? dumpLimit dir)).map fun dump =>
        ⟨dump.path, .counter, (outcome limit dir listing dump).2, 1⟩ := by
  simp only [← resolve_index_eq]
  exact sources_of_named catalog dumpLimit dir _ listing

end Both

end QueueBench.Counter
