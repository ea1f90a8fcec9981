import QueueBench.Key
import QueueBench.Cell

set_option autoImplicit false

namespace QueueBench

/-- The summary of one timing zone. Times are in nanoseconds and shares in percent. -/
structure ZoneTraceRecord where
  key : Key
  name : String
  srcFile : String
  srcLine : Cell
  totalNs : Cell
  totalPerc : Cell
  counts : Cell
  meanNs : Cell
  minNs : Cell
  maxNs : Cell
  stdNs : Cell
deriving DecidableEq

namespace ZoneTraceRecord

open Json Document

def toJson (r : ZoneTraceRecord) : Json :=
  .object (r.key.members ++
    [("name", .string r.name), ("srcFile", .string r.srcFile), ("srcLine", r.srcLine.toJson),
      ("totalNs", r.totalNs.toJson), ("totalPerc", r.totalPerc.toJson),
      ("counts", r.counts.toJson), ("meanNs", r.meanNs.toJson), ("minNs", r.minNs.toJson),
      ("maxNs", r.maxNs.toJson), ("stdNs", r.stdNs.toJson)])

def textFields : List String := ["name", "srcFile"]

def cellFields : List String :=
  ["srcLine", "totalNs", "totalPerc", "counts", "meanNs", "minNs", "maxNs", "stdNs"]

structure Draft where
  texts : List (String × String) := []
  cells : List (String × Cell) := []

def Draft.step (room : Nat) (name : String) (d : Draft) : Option (Reader Draft) :=
  if textFields.contains name then
    some (do
      if (d.texts.lookup name).isSome then Reader.reject (.duplicateField name)
      Reader.colon
      let s ← Reader.string "a string"
      return { d with texts := (name, s) :: d.texts })
  else if cellFields.contains name then
    some (do
      if (d.cells.lookup name).isSome then Reader.reject (.duplicateField name)
      Reader.colon
      let c ← Cell.reader room
      return { d with cells := (name, c) :: d.cells })
  else none

/-- The record of a draft and the members it does not know, among which is the key. -/
def Draft.finish (d : Draft) (rest : List (String × Json)) : Except Mismatch ZoneTraceRecord := do
  let need {α : Type} (fields : List (String × α)) (name : String) : Except Mismatch α :=
    match fields.lookup name with
    | some a => .ok a
    | none => .error (.missingField name)
  let name ← need d.texts "name"
  let srcFile ← need d.texts "srcFile"
  let srcLine ← need d.cells "srcLine"
  let totalNs ← need d.cells "totalNs"
  let totalPerc ← need d.cells "totalPerc"
  let counts ← need d.cells "counts"
  let meanNs ← need d.cells "meanNs"
  let minNs ← need d.cells "minNs"
  let maxNs ← need d.cells "maxNs"
  let stdNs ← need d.cells "stdNs"
  let key ← Key.ofMembers rest
  return ⟨key, name, srcFile, srcLine, totalNs, totalPerc, counts, meanNs, minNs, maxNs, stdNs⟩

def reader : Nat → Reader ZoneTraceRecord :=
  Reader.openRecord "ZoneTraceRecord" Draft.step {} Draft.finish

end ZoneTraceRecord

end QueueBench
