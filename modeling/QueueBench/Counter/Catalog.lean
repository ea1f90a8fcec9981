import QueueBench.Json.Shape
import QueueBench.Text.Blank

set_option autoImplicit false

namespace QueueBench

/-- The event of every collected metric. -/
abbrev Catalog := Table String String

/-- An event's name without the modifiers after its first colon. -/
def baseEvent (event : String) : String := String.ofList (Text.before ':' event.toList)

namespace Catalog

def standard : Catalog :=
  Table.ofList [("dTLB-load-misses", "dTLB-load-misses"), ("iTLB-load-misses", "iTLB-load-misses")]

def zeroed (c : Catalog) : Table String UInt64 := c.mapValues fun _ => 0

/-- The metrics that are collected from an event, in order. -/
def metricsFor (c : Catalog) (event : String) : List String :=
  (c.entries.filter fun e => e.2 == baseEvent event).map (·.1)

def toJson (c : Catalog) : Json := Json.ofTable Json.string c

/-- Reads a catalog; of two events of one metric the later stays. -/
def reader (room : Nat) : Json.Reader Catalog := do
  return Table.ofList (← Json.Reader.table (fun _ => Json.Reader.string "a string") room)

end Catalog

end QueueBench
