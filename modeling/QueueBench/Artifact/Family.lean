import QueueBench.Json.Shape

set_option autoImplicit false

namespace QueueBench

inductive Family where
  | throughput
  | zoneTrace
  | counter
deriving DecidableEq, Repr, Inhabited

namespace Family

/-- How a file name of the family begins, up to the queue size. -/
def opening : Family → String
  | throughput => "benchmark_results_q"
  | zoneTrace => "tracy_q"
  | counter => "perf_q"

def extension : Family → String
  | throughput => ".json"
  | zoneTrace => ".csv"
  | counter => ".txt"

/-- Whether a file name of the family has to give the number of producers. -/
def needsProducers : Family → Bool
  | counter => true
  | _ => false

def label : Family → String
  | throughput => "throughput"
  | zoneTrace => "zone_trace"
  | counter => "counter"

def cases : List (String × Family) :=
  [throughput, zoneTrace, counter].map fun f => (f.label, f)

def ofLabel? (label : String) : Option Family :=
  (cases.find? fun c => c.1 == label).map (·.2)

/-- Whether a file name begins and ends as those of the family do, the two parts apart. -/
def matchesName (family : Family) (name : String) : Bool :=
  family.opening.length + family.extension.length ≤ name.length &&
    family.opening.toList.isPrefixOf name.toList &&
    family.extension.toList.isSuffixOf name.toList

def anyMatchesName (name : String) : Bool := cases.any fun c => c.2.matchesName name

def toJson (family : Family) : Json := .string family.label

def reader (room : Nat) : Json.Reader Family := Json.Reader.variant cases room

end Family

end QueueBench
