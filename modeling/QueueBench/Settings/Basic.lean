import QueueBench.Aggregation.Rule
import QueueBench.Counter.Catalog
import QueueBench.Source.Fault

set_option autoImplicit false

namespace QueueBench

structure Settings where
  aggregation : AggregationRule
  metrics : Catalog
  maxFileBytes : Nat
  zoneTraces : Bool
  counters : Bool
deriving DecidableEq

inductive SettingsFault where
  | window
  | noMetrics
  | tooManyMetrics
  | blankMetric
  | eventName (metric : String)
  | maxFileBytes
  | fileTooLarge
  | notText
deriving DecidableEq

namespace Settings

def standard : Settings := ⟨.standard, Catalog.standard, 16 * 1024 * 1024, true, true⟩

/-- The largest size limit that may be asked for. -/
def maxFileBytesBound : Nat := 1024 * 1024 * 1024

def maxMetrics : Nat := 64

/-- Whether a text can be the event of a metric: not empty, and without a colon or a blank. -/
def isEventName (event : String) : Bool :=
  !event.isEmpty && event.toList.all fun c => c != ':' && !Text.isBlank c

/-- The condition that a metric and its event fail. -/
def metricFault? (metric event : String) : Option SettingsFault :=
  if (Text.trim metric.toList).isEmpty then some .blankMetric
  else if isEventName event then none
  else some (.eventName metric)

/-- The first condition that settings fail. -/
def fault? (s : Settings) : Option SettingsFault :=
  if !AggregationRule.isValidWindow s.aggregation.window then some .window
  else if s.metrics.isEmpty then some .noMetrics
  else if maxMetrics < s.metrics.size then some .tooManyMetrics
  else match s.metrics.entries.findSome? fun e => metricFault? e.1 e.2 with
    | some fault => some fault
    | none =>
      if s.maxFileBytes = 0 ∨ maxFileBytesBound < s.maxFileBytes then some .maxFileBytes else none

end Settings

def SettingsFault.message : SettingsFault → String
  | window => "aggregate.measurement_window_secs must be a positive number"
  | noMetrics => "counters.metrics must be non-empty"
  | tooManyMetrics => "counters.metrics exceeds max entries"
  | blankMetric => "counters.metrics names must be non-empty"
  | eventName metric =>
    "counters.metrics." ++ metric ++ " must be a bare event name without ':' or whitespace"
  | maxFileBytes =>
    "ingest.max_file_bytes must be between 1 and " ++
      String.ofList (Decimal.digits Settings.maxFileBytesBound)
  | fileTooLarge => "config file exceeds size limit"
  | notText => "config file must be utf-8"

end QueueBench
