import QueueBench.Source.Failure

set_option autoImplicit false

namespace QueueBench

/-- How much an event matters; later ones matter less. -/
inductive Level where
  | error
  | warn
  | info
  | debug
  | trace
deriving DecidableEq, Repr

namespace Level

def label : Level → String
  | error => "ERROR"
  | warn => "WARN"
  | info => "INFO"
  | debug => "DEBUG"
  | trace => "TRACE"

def rank : Level → Nat
  | error => 1
  | warn => 2
  | info => 3
  | debug => 4
  | trace => 5

end Level

inductive Event where
  | duplicateKey (key : Key)
  | documentLoaded (path : String) (records : Nat)
  | documentSkipped (path : String) (failure : Failure)
  | aggregated (records queueSizes producerCounts : Nat)
  | traceLoaded (path : String) (rows : Nat)
  | traceSkipped (path : String) (failure : Failure)
  | columnsMissing (path : String) (columns : List String)
  | dumpUnnamed (path : String)
  | dumpSkipped (path : String) (failure : Failure)
  | dumpLoaded (path : String) (key : Key)
  | keySuperseded (path : String) (fileKey key : Key)
  | keyDefaulted (failure : Failure)
  | ingested (zoneTraces counters sources : Nat)
  | datasetWritten (path : String)
  | commandFailed (message : String)
deriving DecidableEq

namespace Event

def level : Event → Level
  | commandFailed _ => .error
  | duplicateKey _ | documentSkipped _ _ | traceSkipped _ _ | columnsMissing _ _ => .warn
  | dumpUnnamed _ | dumpSkipped _ _ | keyDefaulted _ => .warn
  | keySuperseded _ _ _ => .debug
  | documentLoaded _ _ | aggregated _ _ _ | traceLoaded _ _ | dumpLoaded _ _ => .info
  | ingested _ _ _ | datasetWritten _ => .info

def title : Event → String
  | duplicateKey _ => "duplicate configuration key; later record replaces earlier"
  | documentLoaded _ _ => "loaded throughput document"
  | documentSkipped _ _ => "skipping throughput document"
  | aggregated _ _ _ => "aggregated throughput"
  | traceLoaded _ _ => "loaded zone trace"
  | traceSkipped _ _ => "skipping zone trace"
  | columnsMissing _ _ => "zone trace lacks columns; cells default to empty"
  | dumpUnnamed _ => "skipping counter dump without queue and producer tokens"
  | dumpSkipped _ _ => "skipping counter dump"
  | dumpLoaded _ _ => "loaded counter dump"
  | keySuperseded _ _ _ => "throughput key supersedes file name"
  | keyDefaulted _ => "falling back to file name key"
  | ingested _ _ _ => "ingestion complete"
  | datasetWritten _ => "wrote dataset"
  | commandFailed _ => "command failed"

def fields : Event → List (String × String)
  | duplicateKey key =>
    [("queue_size", Failure.countText key.queueSize.toNat),
      ("producer_count", Failure.countText key.producerCount.toNat)]
  | documentLoaded path records => [("path", path), ("records", Failure.countText records)]
  | documentSkipped path failure => [("path", path), ("error", failure.message)]
  | aggregated records queueSizes producerCounts =>
    [("records", Failure.countText records), ("queue_sizes", Failure.countText queueSizes),
      ("producer_counts", Failure.countText producerCounts)]
  | traceLoaded path rows => [("path", path), ("rows", Failure.countText rows)]
  | traceSkipped path failure => [("path", path), ("error", failure.message)]
  | columnsMissing path columns =>
    [("path", path), ("columns", String.intercalate "," columns)]
  | dumpUnnamed path => [("path", path)]
  | dumpSkipped path failure => [("path", path), ("error", failure.message)]
  | dumpLoaded path key => [("path", path), ("key", key.label)]
  | keySuperseded path fileKey key =>
    [("path", path), ("file_key", fileKey.label), ("key", key.label)]
  | keyDefaulted failure => [("error", failure.message)]
  | ingested zoneTraces counters sources =>
    [("zone_traces", Failure.countText zoneTraces), ("counters", Failure.countText counters),
      ("sources", Failure.countText sources)]
  | datasetWritten path => [("path", path)]
  | commandFailed message => [("error", message)]

def line (e : Event) : String :=
  String.intercalate " "
    (e.level.label :: e.title :: e.fields.map fun f => f.1 ++ "=" ++ f.2)

end Event

/-- A result together with the events on the way to it. -/
structure Logged (α : Type) where
  value : α
  events : List Event

namespace Logged

variable {α β : Type}

def silent (a : α) : Logged α := ⟨a, []⟩

/-- Goes on with a result; its events come first. -/
def andThen (x : Logged α) (f : α → Logged β) : Logged β :=
  let y := f x.value
  ⟨y.value, x.events ++ y.events⟩

instance : Monad Logged where
  pure := silent
  bind := andThen

@[simp] theorem value_bind (x : Logged α) (f : α → Logged β) :
    (x >>= f).value = (f x.value).value := rfl

end Logged

end QueueBench
