import QueueBench.Key

set_option autoImplicit false

namespace QueueBench

structure CounterRecord where
  key : Key
  metrics : Table String UInt64
deriving DecidableEq

namespace CounterRecord

open Json Document

def toJson (r : CounterRecord) : Json :=
  .object (r.key.members ++ [("metrics", Json.ofTable Json.natural r.metrics)])

def step (room : Nat) (name : String) (before : Option (Table String UInt64)) :
    Option (Reader (Option (Table String UInt64))) :=
  if name = "metrics" then
    some (do
      if before.isSome then Reader.reject (.duplicateField name)
      Reader.colon
      return some (Table.ofList (← Reader.table (fun _ => Reader.word64) room)))
  else none

/-- The record of its metrics and the members besides, among which is the key. -/
def finish (metrics : Option (Table String UInt64)) (rest : List (String × Json)) :
    Except Mismatch CounterRecord :=
  match metrics with
  | some metrics => do .ok ⟨← Key.ofMembers rest, metrics⟩
  | none => .error (.missingField "metrics")

def reader : Nat → Reader CounterRecord := Reader.openRecord "CounterRecord" step none finish

end CounterRecord

end QueueBench
