import QueueBench.Key

set_option autoImplicit false

namespace QueueBench

/-- A grid of throughputs with its row and column labels. -/
structure Matrix where
  queueSizes : List UInt64
  producerCounts : List UInt32
  cells : List (List Float)
deriving DecidableEq

/-- Halves the `size` places from `base` on until one is left. The upper half is kept unless its
first member is too large; `tooLarge` tells that of a place. -/
def halve (tooLarge : Nat → Bool) : (steps : Nat) → (base size : Nat) → Nat
  | 0, base, _ => base
  | steps + 1, base, size =>
    if size ≤ 1 then base
    else
      let half := size / 2
      halve tooLarge steps (if tooLarge (base + half) then base else base + half) (size - half)

def exceedsAt {α : Type} [Ord α] (axis : List α) (x : α) (i : Nat) : Bool :=
  match axis[i]? with
  | some a => compare a x == .gt
  | none => false

/-- The place of a value in an ascending list. -/
def rank? {α : Type} [Ord α] [DecidableEq α] (axis : List α) (x : α) : Option Nat :=
  let place := halve (exceedsAt axis x) axis.length 0 axis.length
  if axis[place]? = some x then some place else none

namespace Matrix

/-- The matrix of two axes with zero in every cell. -/
def zeroed (queueSizes : List UInt64) (producerCounts : List UInt32) : Matrix :=
  ⟨queueSizes, producerCounts,
    List.replicate producerCounts.length (List.replicate queueSizes.length 0)⟩

/-- The numbers of rows and columns by the axes. -/
def shape (m : Matrix) : Nat × Nat := (m.producerCounts.length, m.queueSizes.length)

/-- The row and column of a key that lies on both axes. -/
def position? (m : Matrix) (key : Key) : Option (Nat × Nat) := do
  let row ← rank? m.producerCounts key.producerCount
  let column ← rank? m.queueSizes key.queueSize
  return (row, column)

def get? (m : Matrix) (key : Key) : Option Float := do
  let (row, column) ← m.position? key
  (← m.cells[row]?)[column]?

/-- Writes the throughput of a key, unless the key is off the axes. -/
def place? (m : Matrix) (key : Key) (x : Float) : Option Matrix := do
  let (row, column) ← m.position? key
  let cells ← m.cells[row]?
  let _ ← cells[column]?
  return { m with cells := m.cells.set row (cells.set column x) }

/-- Writes the throughput of a key that lies on both axes; other keys change nothing. -/
def place (m : Matrix) (key : Key) (x : Float) : Matrix := (m.place? key x).getD m

def toJson (m : Matrix) : Json :=
  .object [("queueSizes", .array (m.queueSizes.map Json.natural)),
    ("producerCounts", .array (m.producerCounts.map fun p => Json.natural p.toUInt64)),
    ("cells", .array (m.cells.map fun row => .array (row.map Json.double)))]

open Json in
/-- Reads a matrix. Nothing is asked of the order of its axes or the length of its rows. -/
def reader (room : Nat) : Reader Matrix := do
  let (queueSizes, producerCounts, cells) ← Reader.record3 "ThroughputMatrix"
    { name := "queueSizes", value := Reader.list fun _ => Reader.word64 }
    { name := "producerCounts", value := Reader.list fun _ => Reader.word32 }
    { name := "cells", value := Reader.list (Reader.list fun _ => Reader.double) } room
  return ⟨queueSizes, producerCounts, cells⟩

end Matrix

end QueueBench
