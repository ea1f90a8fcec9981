import QueueBench.Aggregation.Matrix
import QueueBench.Aggregation.Rule
import QueueBench.Aggregation.Series

set_option autoImplicit false

namespace QueueBench

/-- Throughput in both views, and the keys whose earlier records were replaced. -/
structure Aggregation where
  series : Series
  matrix : Matrix
  duplicates : List Key
deriving DecidableEq

inductive AggregationError where
  | invalidWindow (seconds : Float)
  | duplicateKey (key : Key)
deriving DecidableEq

def AggregationError.message : AggregationError → String
  | invalidWindow seconds =>
    "invalid measurement window: " ++ Decimal.plain.render seconds ++ " seconds"
  | duplicateKey key => "duplicate configuration key: " ++ key.label

namespace Aggregation

def empty : Aggregation := ⟨Series.empty, Matrix.zeroed [] [], []⟩

/-- What the keys counted so far leave: the place of the latest record of every key, the coordinates
that occur, and the keys that came again, in order. -/
structure Tally where
  latest : Table Key Nat
  queueSizes : Table UInt64 Unit
  producerCounts : Table UInt32 Unit
  duplicates : List Key

namespace Tally

def empty : Tally := ⟨∅, ∅, ∅, []⟩

/-- Counts the key of the record at a place, which replaces the place counted before. -/
def put (t : Tally) (place : Nat) (key : Key) : Tally :=
  { latest := t.latest.insert key place
    queueSizes := t.queueSizes.insert key.queueSize ()
    producerCounts := t.producerCounts.insert key.producerCount ()
    duplicates := if (t.latest.get? key).isSome then t.duplicates ++ [key] else t.duplicates }

/-- Counts the key of the record at a place, unless the key came before and the policy stops at
that. -/
def add (policy : DuplicatePolicy) (t : Tally) (place : Nat) (key : Key) :
    Except AggregationError Tally :=
  match t.latest.get? key, policy with
  | some _, .reject => .error (.duplicateKey key)
  | _, _ => .ok (t.put place key)

/-- Counts the keys of the records from a place on. -/
def addAll (policy : DuplicatePolicy) : Tally → Nat → List Key → Except AggregationError Tally
  | t, _, [] => .ok t
  | t, place, key :: keys => do addAll policy (← t.add policy place key) (place + 1) keys

/-- The records at the latest places of their keys, in order. -/
def survivors (t : Tally) (records : List ThroughputRecord) : List ThroughputRecord :=
  (t.latest.values.mergeSort fun i j => i ≤ j).filterMap fun i => records[i]?

def series (t : Tally) (mops : ThroughputRecord → Float) (records : List ThroughputRecord) :
    Series :=
  ((t.survivors records).foldl (fun s r => s.push r.key (mops r)) Series.empty).sort

/-- The surviving records as a matrix, whose axes are those of all records. -/
def matrix (t : Tally) (mops : ThroughputRecord → Float) (records : List ThroughputRecord) :
    Matrix :=
  (t.survivors records).foldl (fun m r => m.place r.key (mops r))
    (Matrix.zeroed t.queueSizes.keys t.producerCounts.keys)

end Tally

/-- Aggregates records under a policy, with a given throughput of each. -/
def ofRecords (policy : DuplicatePolicy) (mops : ThroughputRecord → Float)
    (records : List ThroughputRecord) : Except AggregationError Aggregation := do
  let tally ← Tally.empty.addAll policy 0 (records.map (·.key))
  return ⟨tally.series mops records, tally.matrix mops records, tally.duplicates⟩

/-- Checks the window of a rule. -/
def checkRule (rule : AggregationRule) : Except AggregationError Unit :=
  if AggregationRule.isValidWindow rule.window then .ok () else .error (.invalidWindow rule.window)

def toJson (a : Aggregation) : Json :=
  .object [("series", a.series.toJson), ("matrix", a.matrix.toJson),
    ("duplicates", .array (a.duplicates.map Key.toJson))]

open Json in
def reader (room : Nat) : Reader Aggregation := do
  let (series, matrix, duplicates) ← Reader.record3 "Aggregation"
    { name := "series", value := Series.reader }
    { name := "matrix", value := Matrix.reader }
    { name := "duplicates", value := Reader.list Key.reader } room
  return ⟨series, matrix, duplicates⟩

end Aggregation

end QueueBench
