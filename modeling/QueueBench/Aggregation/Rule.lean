import QueueBench.Throughput.Record

set_option autoImplicit false

namespace QueueBench

inductive DuplicatePolicy where
  | lastWriteWins
  | reject
deriving DecidableEq, Repr

namespace DuplicatePolicy

def cases : List (String × DuplicatePolicy) :=
  [("last_write_wins", lastWriteWins), ("reject", reject)]

def label : DuplicatePolicy → String
  | lastWriteWins => "last_write_wins"
  | reject => "reject"

def ofLabel? (label : String) : Option DuplicatePolicy :=
  (cases.find? fun c => c.1 == label).map (·.2)

end DuplicatePolicy

/-- The measurement window in seconds, and what a repeated key means. -/
structure AggregationRule where
  window : Float
  duplicates : DuplicatePolicy
deriving DecidableEq

namespace AggregationRule

def standard : AggregationRule := ⟨0.5, .lastWriteWins⟩

/-- A window has to be a finite positive number of seconds. -/
def isValidWindow (window : Float) : Bool := window.isFinite && decide (0 < window)

/-- Throughput in millions of operations per second. -/
def mops (rule : AggregationRule) (record : ThroughputRecord) : Float :=
  record.successfulPops.toFloat / rule.window / 1000000

def toJson (rule : AggregationRule) : Json :=
  .object [("measurement_window_secs", .double rule.window),
    ("duplicate_policy", .string rule.duplicates.label)]

open Json in
def reader (room : Nat) : Reader AggregationRule := do
  let (window, duplicates) ← Reader.record2 "AggregatorConfig"
    { name := "measurement_window_secs", value := fun _ => Reader.double }
    { name := "duplicate_policy", value := Reader.variant DuplicatePolicy.cases } room
  return ⟨window, duplicates⟩

end AggregationRule

end QueueBench
