import QueueBench.Event
import QueueBench.KeyIndex
import QueueBench.Source.Listing
import QueueBench.Source.Report
import QueueBench.Throughput.Document

set_option autoImplicit false

namespace QueueBench.Throughput

structure Loaded where
  records : List ThroughputRecord
  environment : Option Json
  index : KeyIndex
  sources : List SourceReport

def noRecords : String := "document carries no benchmark results"

def readDocument (limit : Nat) (path : String) (content : Except PathFault ByteArray) :
    Except Failure ThroughputDocument := do
  let bytes ← readLimited limit path content
  match ThroughputDocument.parse bytes with
  | .ok document => .ok document
  | .error problem => .error (.malformed path problem)

/-- What one document of a directory gives. -/
structure Shard where
  records : List ThroughputRecord
  environment : Option Json
  entry : Option (Key × IndexEntry)
  report : SourceReport
  event : Event

def entryOf (document : ThroughputDocument) : IndexEntry :=
  match document.records with
  | [] => .unusable noRecords
  | r :: _ => .resolved r.key

/-- Reads one document of a directory. A document that cannot be read is passed over. -/
def Shard.ofArtifact (limit : Nat) (dir : String) (a : Artifact) : Shard :=
  let path := Artifact.pathIn dir a.name
  match readDocument limit path a.content with
  | .error failure =>
    { records := []
      environment := none
      entry := a.found.keyIfExact.map fun key => (key, .unusable failure.message)
      report := .skipped path .throughput failure.message
      event := .documentSkipped path failure }
  | .ok document =>
    { records := document.records
      environment := document.environment
      entry := a.found.keyIfExact.map fun key => (key, entryOf document)
      report := ⟨path, .throughput, .ofName .throughput a.found, document.records.length⟩
      event := .documentLoaded path document.records.length }

namespace Loaded

def empty : Loaded := ⟨[], none, ∅, []⟩

/-- Takes in one more document of a directory. Its records come after those so far; a description
of the host and an index entry stay if they are there already. -/
def add (l : Loaded) (shard : Shard) : Loaded :=
  { records := l.records ++ shard.records
    environment := l.environment.or shard.environment
    index := match shard.entry with
      | some (fileKey, entry) => l.index.add fileKey entry
      | none => l.index
    sources := l.sources ++ [shard.report] }

def ofShards (shards : List Shard) : Loaded := shards.foldl add empty

end Loaded

def loadDirectory (limit : Nat) (dir : String) (listing : List DirEntry) : Logged Loaded :=
  let shards := (Artifact.discover .throughput listing).map (Shard.ofArtifact limit dir)
  ⟨Loaded.ofShards shards, shards.map (·.event)⟩

/-- The status of a document loaded on its own: its first record's key stands for it. -/
def documentStatus (document : ThroughputDocument) : SourceStatus :=
  match document.records with
  | [] => .skipped noRecords
  | r :: _ => .resolved r.key

/-- Loads one document, whose name does not matter. -/
def loadDocument (limit : Nat) (path : String) (content : Except PathFault ByteArray) :
    Logged (Except Failure Loaded) :=
  match readDocument limit path content with
  | .error failure => ⟨.error failure, []⟩
  | .ok document =>
    ⟨.ok
      { records := document.records
        environment := document.environment
        index := ∅
        sources := [⟨path, .throughput, documentStatus document, document.records.length⟩] },
      [.documentLoaded path document.records.length]⟩

end QueueBench.Throughput
