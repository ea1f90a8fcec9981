import QueueBench.Json.Shape

set_option autoImplicit false

namespace QueueBench

/-- The coordinates of a run: the size of the queue and the number of its producers. -/
@[ext] structure Key where
  queueSize : UInt64
  producerCount : UInt32
deriving DecidableEq, Repr, Inhabited

namespace Key

/-- Queue size first, then producer count. -/
instance : Ord Key := ⟨compareLex (compareOn Key.queueSize) (compareOn Key.producerCount)⟩

instance : Std.TransOrd Key :=
  inferInstanceAs (Std.TransCmp (compareLex (compareOn Key.queueSize) (compareOn Key.producerCount)))

instance : Std.LawfulEqOrd Key where
  eq_of_compare {a b} h := by
    obtain ⟨q, p⟩ := a
    obtain ⟨q', p'⟩ := b
    have h' : (compare q q').then (compare p p') = .eq := h
    rw [Ordering.then_eq_eq] at h'
    rw [Std.LawfulEqOrd.eq_of_compare h'.1, Std.LawfulEqOrd.eq_of_compare h'.2]

def label (k : Key) : String :=
  "q" ++ String.ofList (Decimal.digits k.queueSize.toNat) ++
    "_p" ++ String.ofList (Decimal.digits k.producerCount.toNat)

def members (k : Key) : List (String × Json) :=
  [("queueSize", .natural k.queueSize), ("producerCount", .natural k.producerCount.toUInt64)]

def toJson (k : Key) : Json := .object k.members

open Json Document

/-- A key, as an object or as a list of its two numbers. -/
def reader (room : Nat) : Reader Key := do
  let (q, p) ← Reader.record2 "ConfigurationKey"
    { name := "queueSize", value := fun _ => Reader.word64 }
    { name := "producerCount", value := fun _ => Reader.word32 } room
  return ⟨q, p⟩

def queueSizeIn (v : Json) : Except Mismatch UInt64 :=
  (Json.naturalIn wordBound "u64" v).map UInt64.ofNat

def producerCountIn (v : Json) : Except Mismatch UInt32 :=
  (Json.naturalIn halfWordBound "u32" v).map UInt32.ofNat

/-- Collects the two coordinates from members in order; neither may come twice. -/
def gather : List (String × Json) → Option UInt64 → Option UInt32 → Except Mismatch Key
  | [], q, p => do
    let q ← match q with
      | some q => .ok q
      | none => .error (.missingField "queueSize")
    let p ← match p with
      | some p => .ok p
      | none => .error (.missingField "producerCount")
    .ok ⟨q, p⟩
  | (name, v) :: rest, q, p =>
    if name = "queueSize" then
      match q with
      | some _ => .error (.duplicateField "queueSize")
      | none => do gather rest (some (← queueSizeIn v)) p
    else if name = "producerCount" then
      match p with
      | some _ => .error (.duplicateField "producerCount")
      | none => do gather rest q (some (← producerCountIn v))
    else gather rest q p

def ofMembers (members : List (String × Json)) : Except Mismatch Key := gather members none none

/-- The key that a tree shows, as an object or as a list of its two numbers. -/
def ofJson : Json → Except Mismatch Key
  | .object members => ofMembers members
  | .array items => do
    let owner := Reader.lengthText "ConfigurationKey" "2"
    match items with
    | [] => .error (.wrongLength 0 owner)
    | q :: rest => do
      let q ← queueSizeIn q
      match rest with
      | [] => .error (.wrongLength 1 owner)
      | p :: rest => do
        let p ← producerCountIn p
        if rest.isEmpty then .ok ⟨q, p⟩
        else .error (.wrongLength items.length "2 elements in sequence")
  | v => .error (.wrongType v.found "struct ConfigurationKey")

end Key

end QueueBench
