import QueueBench.Counter.Load
import QueueBench.Settings.Basic
import QueueBench.Throughput.Load
import QueueBench.ZoneTrace.Load

set_option autoImplicit false

namespace QueueBench

structure Dataset where
  environment : Option Json
  throughput : List ThroughputRecord
  aggregation : Aggregation
  zoneTraces : List ZoneTraceRecord
  counters : List CounterRecord
  sources : List SourceReport

namespace Dataset

def toJson (d : Dataset) : Json :=
  .object [("environment", d.environment.getD .null),
    ("throughput", .array (d.throughput.map ThroughputRecord.toJson)),
    ("aggregation", d.aggregation.toJson),
    ("zoneTraces", .array (d.zoneTraces.map ZoneTraceRecord.toJson)),
    ("counters", .array (d.counters.map CounterRecord.toJson)),
    ("sources", .array (d.sources.map SourceReport.toJson))]

def aggregate (rule : AggregationRule) (records : List ThroughputRecord) :
    Logged (Except Failure Aggregation) :=
  match Aggregation.checkRule rule with
  | .error e => ⟨.error (.aggregation e), []⟩
  | .ok () =>
    match Aggregation.ofRecords rule.duplicates rule.mops records with
    | .error e => ⟨.error (.aggregation e), []⟩
    | .ok a =>
      ⟨.ok a, a.duplicates.map Event.duplicateKey ++
        [.aggregated records.length a.matrix.queueSizes.length a.matrix.producerCounts.length]⟩

/-- Aggregates loaded throughput, which must not be empty. -/
def aggregateLoaded (settings : Settings) (input : String) (loaded : Throughput.Loaded) :
    Logged (Except Failure Aggregation) :=
  if loaded.records.isEmpty then ⟨.error (.noResults input), []⟩
  else aggregate settings.aggregation loaded.records

/-- The zone traces of a directory, if they are asked for. -/
def loadTraces (settings : Settings) (dir : String) (listing : List DirEntry) :
    Logged ZoneTrace.Loaded :=
  if settings.zoneTraces then ZoneTrace.loadDirectory settings.maxFileBytes dir listing
  else .silent ⟨[], []⟩

def loadCounters (settings : Settings) (dir : String) (index : KeyIndex)
    (listing : List DirEntry) : Logged Counter.Loaded :=
  if settings.counters then
    Counter.loadDirectory settings.metrics settings.maxFileBytes dir index listing
  else .silent ⟨[], []⟩

/-- Puts a dataset together and reports its size. -/
def assemble (loaded : Throughput.Loaded) (aggregation : Aggregation)
    (traces : ZoneTrace.Loaded) (counters : Counter.Loaded) : Logged Dataset :=
  let sources := loaded.sources ++ traces.sources ++ counters.sources
  ⟨⟨loaded.environment, loaded.records, aggregation, traces.records, counters.records, sources⟩,
    [.ingested traces.records.length counters.records.length sources.length]⟩

def ofDirectory (settings : Settings) (dir : String) (listing : List DirEntry) :
    Logged (Except Failure Dataset) := do
  let loaded ← Throughput.loadDirectory settings.maxFileBytes dir listing
  match ← aggregateLoaded settings dir loaded with
  | .error failure => return .error failure
  | .ok aggregation =>
    let traces ← loadTraces settings dir listing
    let counters ← loadCounters settings dir loaded.index listing
    return .ok (← assemble loaded aggregation traces counters)

def ofDocument (settings : Settings) (path : String) (content : Except PathFault ByteArray) :
    Logged (Except Failure Dataset) := do
  match ← Throughput.loadDocument settings.maxFileBytes path content with
  | .error failure => return .error failure
  | .ok loaded =>
    match ← aggregateLoaded settings path loaded with
    | .error failure => return .error failure
    | .ok aggregation => return .ok (← assemble loaded aggregation ⟨[], []⟩ ⟨[], []⟩)

end Dataset

end QueueBench
