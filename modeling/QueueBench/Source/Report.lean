import QueueBench.Artifact.Name

set_option autoImplicit false

namespace QueueBench

/-- How the key of a source was found, or why it was passed over. -/
inductive SourceStatus where
  | resolved (key : Key)
  | defaultedKey (key : Key) (reason : String)
  | skipped (reason : String)
deriving DecidableEq

namespace SourceStatus

def key? : SourceStatus → Option Key
  | resolved key => some key
  | defaultedKey key _ => some key
  | skipped _ => none

def isSkipped : SourceStatus → Bool
  | skipped _ => true
  | _ => false

/-- The reason given for a name that does not follow its family's pattern. -/
def patternReason (family : Family) : String :=
  "file name does not match the " ++ family.label ++ " pattern"

/-- The status of a source whose key is taken from its name. -/
def ofName (family : Family) : NameKey → SourceStatus
  | .exact key => resolved key
  | .producerDefaulted key =>
    defaultedKey key "producer token absent; producer_count defaults to 0"
  | .malformed => defaultedKey NameKey.malformed.key (patternReason family)

end SourceStatus

/-- What became of a source, and how many records it gave. -/
structure SourceReport where
  path : String
  family : Family
  status : SourceStatus
  records : Nat
deriving DecidableEq

namespace SourceReport

def skipped (path : String) (family : Family) (reason : String) : SourceReport :=
  ⟨path, family, .skipped reason, 0⟩

end SourceReport

namespace SourceStatus

open Json Document

def labels : List String := ["resolved", "defaulted_key", "skipped"]

def members : SourceStatus → List (String × Json)
  | resolved key => [("status", .string "resolved"), ("key", key.toJson)]
  | defaultedKey key reason =>
    [("status", .string "defaulted_key"), ("key", key.toJson), ("reason", .string reason)]
  | skipped reason => [("status", .string "skipped"), ("reason", .string reason)]

/-- Which kind of status a tag names, by its label or by its place among the labels. -/
def kindOf (tag : Json) : Except Mismatch Nat :=
  match tag with
  | .string s =>
    match labels.findIdx? (· == s) with
    | some i => .ok i
    | none => .error (.unknownVariant s labels)
  | .number (.natural n) =>
    if n.toNat < labels.length then .ok n.toNat
    else .error (.wrongValue (.integer n.toNat) "variant index 0 <= i < 3")
  | v => .error (.wrongType v.found "variant identifier")

/-- Collects key and reason from members in order; a field that the kind of status lacks is passed
over, and none of the others may come twice. -/
def gather (hasKey hasReason : Bool) :
    List (String × Json) → Option Key → Option String → Except Mismatch (Option Key × Option String)
  | [], key, reason =>
    if hasKey ∧ key.isNone then .error (.missingField "key")
    else if hasReason ∧ reason.isNone then .error (.missingField "reason")
    else .ok (key, reason)
  | (name, v) :: rest, key, reason =>
    if hasKey ∧ name = "key" then
      match key with
      | some _ => .error (.duplicateField "key")
      | none => do gather hasKey hasReason rest (some (← Key.ofJson v)) reason
    else if hasReason ∧ name = "reason" then
      match reason with
      | some _ => .error (.duplicateField "reason")
      | none => do gather hasKey hasReason rest key (some (← Json.textIn "a string" v))
    else gather hasKey hasReason rest key reason

def ofMembers (members : List (String × Json)) : Except Mismatch SourceStatus := do
  match members.filter fun m => m.1 == "status" with
  | [] => .error (.missingField "status")
  | tag :: more =>
    let kind ← kindOf tag.2
    if !more.isEmpty then .error (.duplicateField "status")
    let (key, reason) ← gather (kind < 2) (kind > 0) members none none
    match key, reason with
    | some key, some reason => .ok (defaultedKey key reason)
    | some key, none => .ok (resolved key)
    | none, some reason => .ok (skipped reason)
    | none, none => .error (.missingField "key")

end SourceStatus

namespace SourceReport

open Json Document

def toJson (r : SourceReport) : Json :=
  .object ([("path", Json.string r.path), ("family", r.family.toJson)] ++ r.status.members ++
    [("records", Json.count r.records)])

structure Draft where
  path : Option String := none
  family : Option Family := none
  records : Option Nat := none

def Draft.step (room : Nat) (name : String) (d : Draft) : Option (Reader Draft) :=
  let once {α : Type} (before : Option α) (value : Reader α) (put : α → Draft) : Reader Draft := do
    if before.isSome then Reader.reject (.duplicateField name)
    Reader.colon
    return put (← value)
  if name = "path" then
    some (once d.path (Reader.string "path string") fun p => { d with path := some p })
  else if name = "family" then
    some (once d.family (Family.reader room) fun f => { d with family := some f })
  else if name = "records" then
    some (once d.records Reader.size fun n => { d with records := some n })
  else none

/-- The report of a draft and the members besides, which show the status. -/
def Draft.finish (d : Draft) (rest : List (String × Json)) : Except Mismatch SourceReport := do
  let need {α : Type} (name : String) (value : Option α) : Except Mismatch α :=
    match value with
    | some a => .ok a
    | none => .error (.missingField name)
  let path ← need "path" d.path
  let family ← need "family" d.family
  let records ← need "records" d.records
  let status ← SourceStatus.ofMembers rest
  return ⟨path, family, status, records⟩

def reader : Nat → Reader SourceReport :=
  Reader.openRecord "SourceReport" Draft.step {} Draft.finish

end SourceReport

end QueueBench
