import QueueBench.Ingest
import QueueBench.Proofs.DiscoveryOrder
import QueueBench.Proofs.TableLookup

set_option autoImplicit false

namespace QueueBench

namespace Throughput

/-- The document that a file holds, if the file can be read, is within the limit and parses. -/
def document? (limit : Nat) (content : Except PathFault ByteArray) : Option ThroughputDocument :=
  match content with
  | .error _ => none
  | .ok bytes =>
    if bytes.size ≤ limit then (ThroughputDocument.parse bytes.data.toList).toOption else none

/-- The records of a file. A single record counts as a batch of one. -/
def contribution (limit : Nat) (a : Artifact) : List ThroughputRecord :=
  match document? limit a.content with
  | none => []
  | some document =>
    match document.results with
    | .many batch => batch
    | .one record => [record]

/-- The description of the host in a file, unless it is null. -/
def descriptor? (limit : Nat) (a : Artifact) : Option Json :=
  match document? limit a.content with
  | none => none
  | some document =>
    match document.cpuInfo with
    | none => none
    | some value => if value.isNull then none else some value

theorem readDocument_toOption (limit : Nat) (path : String)
    (content : Except PathFault ByteArray) :
    (readDocument limit path content).toOption = document? limit content := by
  unfold readDocument readLimited document?
  cases content with
  | error fault => rfl
  | ok bytes =>
    by_cases fits : bytes.size ≤ limit
    · simp only [if_pos fits, bind, Except.bind]
      cases ThroughputDocument.parse bytes.data.toList <;> rfl
    · simp only [if_neg fits]
      rfl

theorem records_ofArtifact (limit : Nat) (dir : String) (a : Artifact) :
    (Shard.ofArtifact limit dir a).records = contribution limit a := by
  unfold Shard.ofArtifact contribution
  rw [← readDocument_toOption limit (Artifact.pathIn dir a.name)]
  dsimp only
  cases readDocument limit (Artifact.pathIn dir a.name) a.content with
  | error failure => rfl
  | ok document =>
    obtain ⟨results, cpuInfo⟩ := document
    cases results <;> rfl

theorem environment_ofArtifact (limit : Nat) (dir : String) (a : Artifact) :
    (Shard.ofArtifact limit dir a).environment = descriptor? limit a := by
  unfold Shard.ofArtifact descriptor?
  rw [← readDocument_toOption limit (Artifact.pathIn dir a.name)]
  dsimp only
  cases readDocument limit (Artifact.pathIn dir a.name) a.content with
  | error failure => rfl
  | ok document =>
    obtain ⟨results, cpuInfo⟩ := document
    cases cpuInfo with
    | none => rfl
    | some value =>
      by_cases isNull : value.isNull = true
      · have dropped : (some value).filter (fun v => !v.isNull) = none :=
          Option.filter_some_neg (by simp [isNull])
        exact dropped.trans (if_pos isNull).symm
      · have kept : (some value).filter (fun v => !v.isNull) = some value :=
          Option.filter_some_pos (by simpa using isNull)
        exact kept.trans (if_neg isNull).symm

theorem records_foldl_add (l : Loaded) (shards : List Shard) :
    (shards.foldl Loaded.add l).records = l.records ++ shards.flatMap Shard.records := by
  induction shards generalizing l with
  | nil => rw [List.foldl_nil, List.flatMap_nil, List.append_nil]
  | cons shard rest ih =>
    rw [List.foldl_cons, ih, List.flatMap_cons, ← List.append_assoc]
    rfl

theorem environment_foldl_add (l : Loaded) (shards : List Shard) :
    (shards.foldl Loaded.add l).environment =
      l.environment.or (shards.findSome? Shard.environment) := by
  induction shards generalizing l with
  | nil => rw [List.foldl_nil, List.findSome?_nil, Option.or_none]
  | cons shard rest ih =>
    have step : (l.add shard).environment = l.environment.or shard.environment := rfl
    rw [List.foldl_cons, ih, step, Option.or_assoc, List.findSome?_cons]
    cases shard.environment <;> rfl

theorem sources_foldl_add (l : Loaded) (shards : List Shard) :
    (shards.foldl Loaded.add l).sources = l.sources ++ shards.map Shard.report := by
  induction shards generalizing l with
  | nil => rw [List.foldl_nil, List.map_nil, List.append_nil]
  | cons shard rest ih =>
    rw [List.foldl_cons, ih, List.map_cons, List.append_cons]
    rfl

theorem get?_index_add (l : Loaded) (shard : Shard) (k : Key) :
    (l.add shard).index.get? k =
      (l.index.get? k).or ((shard.entry.filter fun e => e.1 = k).map (·.2)) := by
  unfold Loaded.add KeyIndex.add
  cases shard.entry with
  | none => rw [Option.filter_none, Option.map_none, Option.or_none]
  | some e =>
    obtain ⟨fileKey, entry⟩ := e
    rw [Table.get?_insertNew]
    by_cases same : k = fileKey
    · rw [if_pos same, Option.filter_some_pos (by simpa using same.symm)]
      rfl
    · rw [if_neg same, Option.filter_some_neg (by simpa using Ne.symm same), Option.map_none,
        Option.or_none]

/-- The first entry for a key stays. -/
theorem get?_index_foldl_add (l : Loaded) (shards : List Shard) (k : Key) :
    (shards.foldl Loaded.add l).index.get? k =
      (l.index.get? k).or
        (((shards.filterMap Shard.entry).find? fun e => e.1 = k).map (·.2)) := by
  induction shards generalizing l with
  | nil => rw [List.foldl_nil, List.filterMap_nil, List.find?_nil, Option.map_none, Option.or_none]
  | cons shard rest ih =>
    rw [List.foldl_cons, ih, get?_index_add, Option.or_assoc]
    -- What the index held before comes first in both answers; the rest is the first shard's turn.
    congr 1
    cases entered : shard.entry with
    | none => rw [List.filterMap_cons_none entered, Option.filter_none, Option.map_none,
        Option.none_or]
    | some e =>
      rw [List.filterMap_cons_some entered]
      by_cases same : e.1 = k
      · rw [List.find?_cons_of_pos (by simpa using same),
          Option.filter_some_pos (by simpa using same)]
        rfl
      · rw [List.find?_cons_of_neg (by simpa using same),
          Option.filter_some_neg (by simpa using same), Option.map_none, Option.none_or]

/-- Loading the documents of a directory succeeds and merges them without loss or repetition. The
records are those of all files in order of discovery, and the host is described by the first file
that does so, whether or not that file has records. -/
theorem loadDirectory_merges (limit : Nat) (dir : String) (listing : List DirEntry) :
    let files := Artifact.discover .throughput listing
    let loaded := (loadDirectory limit dir listing).value
    (∀ tree : FileTree, tree.list dir = .ok listing →
      (loadDirectoryAt limit tree dir).value = .ok loaded) ∧
    files.Perm (listing.filterMap (Artifact.fromEntry .throughput)) ∧
    files.Pairwise Artifact.InOrder ∧
    loaded.records = files.flatMap (contribution limit) ∧
    loaded.environment = files.findSome? (descriptor? limit) := by
  intro files loaded
  refine ⟨?succeeds, ?found, ?ordered, ?records, ?environment⟩
  case succeeds =>
    intro tree listed
    unfold loadDirectoryAt listAt
    rw [listed]
    rfl
  case found => exact Artifact.discover_perm .throughput listing
  case ordered => exact Artifact.discover_inOrder .throughput listing
  case records =>
    have merged := records_foldl_add Loaded.empty (files.map (Shard.ofArtifact limit dir))
    rw [List.flatMap_map] at merged
    simp only [records_ofArtifact] at merged
    exact merged
  case environment =>
    have merged := environment_foldl_add Loaded.empty (files.map (Shard.ofArtifact limit dir))
    rw [List.findSome?_map] at merged
    simp only [Function.comp_def, environment_ofArtifact] at merged
    exact merged

end Throughput

end QueueBench
