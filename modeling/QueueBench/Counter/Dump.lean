import QueueBench.Counter.Catalog
import QueueBench.Text.Line
import QueueBench.Text.Utf8

set_option autoImplicit false

namespace QueueBench.Dump

/-- The event and the count of a line. -/
def parseLine (line : List Char) : Option (String × UInt64) :=
  match Text.words (Text.before '#' line) with
  | [count, event] =>
    (Decimal.natBelow? Json.wordBound count).map fun n => (String.ofList event, UInt64.ofNat n)
  | _ => none

def readings (text : List Char) : List (String × UInt64) :=
  (Text.lines text).filterMap parseLine

/-- The metrics while a dump is read: their counts so far, and which of them a line has decided. A
metric may be decided and have the count zero. -/
structure Collection where
  counts : Table String UInt64
  decided : List String

namespace Collection

/-- Takes a count for a metric unless the metric is decided. -/
def take (n : UInt64) (c : Collection) (metric : String) : Collection :=
  if metric ∈ c.decided then c else ⟨c.counts.insert metric n, metric :: c.decided⟩

/-- Takes the count of a reading for every metric of its event. -/
def read (catalog : Catalog) (c : Collection) (reading : String × UInt64) : Collection :=
  (catalog.metricsFor reading.1).foldl (take reading.2) c

end Collection

def extract (catalog : Catalog) (text : List Char) : Table String UInt64 :=
  ((readings text).foldl (Collection.read catalog) ⟨catalog.zeroed, []⟩).counts

/-- The metrics of a catalog from the bytes of a dump; what is not UTF-8 is replaced first. -/
def extractBytes (catalog : Catalog) (bytes : List UInt8) : Table String UInt64 :=
  extract catalog (Text.Utf8.decodeLossy bytes)

end QueueBench.Dump
