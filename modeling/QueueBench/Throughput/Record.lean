import QueueBench.Key

set_option autoImplicit false

namespace QueueBench

/-- A finished run. The fields that this program does not use are kept in name order. -/
structure ThroughputRecord where
  key : Key
  successfulPops : UInt64
  extra : Table String Json

namespace ThroughputRecord

open Json Document

/-- The fields that are read, as opposed to kept. -/
def ownFields : List String := ["queueSize", "producerCount", "successfulPops"]

/-- The object of a record: its own fields first, then the kept ones. -/
def toJson (r : ThroughputRecord) : Json :=
  .object (r.key.members ++ ("successfulPops", Json.natural r.successfulPops) :: r.extra.entries)

/-- The value of a member that occurs exactly once. -/
def only? (name : String) (members : List (String × Json)) : Option Json :=
  match members.filter fun m => m.1 == name with
  | [m] => some m.2
  | _ => none

def ofJson? : Json → Option ThroughputRecord
  | .object members => do
    let q ← (Key.queueSizeIn (← only? "queueSize" members)).toOption
    let p ← (Key.producerCountIn (← only? "producerCount" members)).toOption
    let pops ← (Json.naturalIn wordBound "u64" (← only? "successfulPops" members)).toOption
    return ⟨⟨q, p⟩, UInt64.ofNat pops,
      Json.tableOf (members.filter fun m => !ownFields.contains m.1)⟩
  | _ => none

structure Draft where
  queueSize : Option UInt64 := none
  producerCount : Option UInt32 := none
  successfulPops : Option UInt64 := none

def Draft.step (_room : Nat) (name : String) (d : Draft) : Option (Reader Draft) :=
  let once {α : Type} (before : Option α) (value : Reader α) (put : α → Draft) : Reader Draft := do
    if before.isSome then Reader.reject (.duplicateField name)
    Reader.colon
    return put (← value)
  if name = "queueSize" then
    some (once d.queueSize Reader.word64 fun q => { d with queueSize := some q })
  else if name = "producerCount" then
    some (once d.producerCount Reader.word32 fun p => { d with producerCount := some p })
  else if name = "successfulPops" then
    some (once d.successfulPops Reader.word64 fun n => { d with successfulPops := some n })
  else none

def Draft.finish (d : Draft) (rest : List (String × Json)) : Except Mismatch ThroughputRecord := do
  let need {α : Type} (name : String) (value : Option α) : Except Mismatch α :=
    match value with
    | some a => .ok a
    | none => .error (.missingField name)
  let q ← need "queueSize" d.queueSize
  let p ← need "producerCount" d.producerCount
  let pops ← need "successfulPops" d.successfulPops
  return ⟨⟨q, p⟩, pops, Json.tableOf rest⟩

def reader : Nat → Reader ThroughputRecord :=
  Reader.openRecord "ThroughputRecord" Draft.step {} Draft.finish

end ThroughputRecord

end QueueBench
