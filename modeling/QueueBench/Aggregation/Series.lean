import QueueBench.Key

set_option autoImplicit false

namespace QueueBench

/-- A sample among those of one queue size. -/
structure ProducerPoint where
  producerCount : UInt32
  mops : Float
deriving DecidableEq

/-- A sample among those of one producer count. -/
structure QueuePoint where
  queueSize : UInt64
  mops : Float
deriving DecidableEq

structure Series where
  byQueueSize : Table UInt64 (List ProducerPoint)
  byProducerCount : Table UInt32 (List QueuePoint)
deriving DecidableEq

namespace Series

def empty : Series := ⟨∅, ∅⟩

/-- Adds a sample at the end of its two groups. -/
def push (s : Series) (key : Key) (mops : Float) : Series :=
  ⟨s.byQueueSize.update key.queueSize fun ps => ps.getD [] ++ [⟨key.producerCount, mops⟩],
    s.byProducerCount.update key.producerCount fun ps => ps.getD [] ++ [⟨key.queueSize, mops⟩]⟩

/-- Sorts every group by its other coordinate; samples that agree in it keep their order. -/
def sort (s : Series) : Series :=
  ⟨s.byQueueSize.mapValues fun ps => ps.mergeSort fun a b => a.producerCount ≤ b.producerCount,
    s.byProducerCount.mapValues fun ps => ps.mergeSort fun a b => a.queueSize ≤ b.queueSize⟩

def size (s : Series) : Nat := s.byQueueSize.values.flatten.length

def isEmpty (s : Series) : Bool := s.byQueueSize.isEmpty

open Json

def groupName (n : Nat) : String := String.ofList (Decimal.digits n)

def toJson (s : Series) : Json :=
  .object [
    ("byQueueSize", .object (s.byQueueSize.entries.map fun (q, ps) =>
      (groupName q.toNat, .array (ps.map fun p =>
        .object [("producerCount", .natural p.producerCount.toUInt64),
          ("throughputMops", .double p.mops)])))),
    ("byProducerCount", .object (s.byProducerCount.entries.map fun (n, ps) =>
      (groupName n.toNat, .array (ps.map fun p =>
        .object [("queueSize", .natural p.queueSize), ("throughputMops", .double p.mops)]))))]

def producerPoint (room : Nat) : Reader ProducerPoint := do
  let (producerCount, mops) ← Reader.record2 "ProducerPoint"
    { name := "producerCount", value := fun _ => Reader.word32 }
    { name := "throughputMops", value := fun _ => Reader.double } room
  return ⟨producerCount, mops⟩

def queuePoint (room : Nat) : Reader QueuePoint := do
  let (queueSize, mops) ← Reader.record2 "QueuePoint"
    { name := "queueSize", value := fun _ => Reader.word64 }
    { name := "throughputMops", value := fun _ => Reader.double } room
  return ⟨queueSize, mops⟩

/-- Reads a series; of two groups of one name the later stays. -/
def reader (room : Nat) : Reader Series := do
  let (byQueueSize, byProducerCount) ← Reader.record2 "DerivedSeries"
    { name := "byQueueSize",
      value := Reader.numberTable wordBound "u64" (Reader.list producerPoint) }
    { name := "byProducerCount",
      value := Reader.numberTable halfWordBound "u32" (Reader.list queuePoint) } room
  return ⟨Table.ofList (byQueueSize.map fun (n, ps) => (UInt64.ofNat n, ps)),
    Table.ofList (byProducerCount.map fun (n, ps) => (UInt32.ofNat n, ps))⟩

end Series

end QueueBench
