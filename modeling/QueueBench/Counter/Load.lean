import QueueBench.Counter.Dump
import QueueBench.Counter.Record
import QueueBench.Event
import QueueBench.KeyIndex
import QueueBench.Source.Listing
import QueueBench.Source.Report

set_option autoImplicit false

namespace QueueBench.Counter

/-- A key with the status that tells where it came from, and the event that reports it. -/
structure Resolution where
  key : Key
  status : SourceStatus
  events : List Event

/-- The key of a dump that has to keep its file name's key. -/
def Resolution.fallback (path : String) (fileKey : Key) (why : Unresolved) : Resolution :=
  let failure := Failure.keyUnresolved path why
  ⟨fileKey, .defaultedKey fileKey failure.message, [.keyDefaulted failure]⟩

def resolve (path : String) (fileKey : Key) (index : KeyIndex) : Resolution :=
  match index.get? fileKey with
  | some (.resolved key) =>
    ⟨key, .resolved key, if key = fileKey then [] else [.keySuperseded path fileKey key]⟩
  | some (.unusable reason) => .fallback path fileKey (.unusable fileKey reason)
  | none => .fallback path fileKey (.noDocument fileKey)

structure Snapshot where
  record : Option CounterRecord
  report : SourceReport
  events : List Event

/-- Reads one dump. A dump whose name lacks a coordinate, or that is too large or cannot be read, is
passed over. -/
def Snapshot.ofArtifact (catalog : Catalog) (limit : Nat) (dir : String) (index : KeyIndex)
    (a : Artifact) : Snapshot :=
  let path := Artifact.pathIn dir a.name
  match a.found with
  | .exact fileKey =>
    match readLimited limit path a.content with
    | .error failure =>
      ⟨none, .skipped path .counter failure.message, [.dumpSkipped path failure]⟩
    | .ok bytes =>
      let found := resolve path fileKey index
      ⟨some ⟨found.key, Dump.extractBytes catalog bytes⟩, ⟨path, .counter, found.status, 1⟩,
        found.events ++ [.dumpLoaded path found.key]⟩
  | _ => ⟨none, .skipped path .counter (SourceStatus.patternReason .counter), [.dumpUnnamed path]⟩

structure Loaded where
  records : List CounterRecord
  sources : List SourceReport

def loadDirectory (catalog : Catalog) (limit : Nat) (dir : String) (index : KeyIndex)
    (listing : List DirEntry) : Logged Loaded :=
  let snapshots :=
    (Artifact.discover .counter listing).map (Snapshot.ofArtifact catalog limit dir index)
  ⟨⟨snapshots.filterMap (·.record), snapshots.map (·.report)⟩, snapshots.flatMap (·.events)⟩

end QueueBench.Counter
