import QueueBench.Throughput.Record

set_option autoImplicit false

namespace QueueBench

/-- The results of a document: a batch of records, or a single one. -/
inductive ResultPayload where
  | many (records : List ThroughputRecord)
  | one (record : ThroughputRecord)

namespace ResultPayload

def records : ResultPayload → List ThroughputRecord
  | many rs => rs
  | one r => [r]

/-- The payload as a value; a batch stays a list and a single record stays bare. -/
def toJson : ResultPayload → Json
  | many rs => .array (rs.map ThroughputRecord.toJson)
  | one r => r.toJson

def ofJson? : Json → Option ResultPayload
  | .array items => (items.mapM ThroughputRecord.ofJson?).map many
  | v => (ThroughputRecord.ofJson? v).map one

def reader (room : Nat) : Json.Reader ResultPayload := do
  match ofJson? (← Json.Reader.value room) with
  | some payload => return payload
  | none => Json.Reader.reject (.noForm "ResultPayload")

end ResultPayload

structure ThroughputDocument where
  results : ResultPayload
  cpuInfo : Option Json

namespace ThroughputDocument

open Json

def records (d : ThroughputDocument) : List ThroughputRecord := d.results.records

/-- The description of the host, unless it is missing or null. -/
def environment (d : ThroughputDocument) : Option Json := d.cpuInfo.filter fun v => !v.isNull

def toJson (d : ThroughputDocument) : Json :=
  .object [("benchmarkResults", d.results.toJson), ("cpuInfo", d.cpuInfo.getD .null)]

/-- Reads a document. A description that is null counts as left out. -/
def reader : Nat → Reader ThroughputDocument := fun room => do
  let (results, cpuInfo) ← Reader.record2 "ThroughputDocument"
    { name := "benchmarkResults", value := ResultPayload.reader }
    { name := "cpuInfo",
      value := fun room => Reader.nullable (return (← Reader.value room).normal),
      absent := some none } room
  return ⟨results, cpuInfo⟩

def parse (bytes : Bytes) : Except Problem ThroughputDocument :=
  Reader.run (reader Reader.documentRoom) bytes

end ThroughputDocument

end QueueBench
