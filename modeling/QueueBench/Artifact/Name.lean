import QueueBench.Artifact.Family
import QueueBench.Key
import QueueBench.Text.Blank
import QueueBench.Text.Utf8

set_option autoImplicit false

namespace QueueBench

/-- What a file name tells about the key. -/
inductive NameKey where
  | exact (key : Key)
  | producerDefaulted (key : Key)
  | malformed
deriving DecidableEq, Repr

namespace NameKey

/-- The key in effect; a malformed name stands under `q0_p0`. -/
def key : NameKey → Key
  | exact k => k
  | producerDefaulted k => k
  | malformed => ⟨0, 0⟩

def isExact : NameKey → Bool
  | exact _ => true
  | _ => false

def keyIfExact : NameKey → Option Key
  | exact k => some k
  | _ => none

end NameKey

namespace Family

/-- Splits at the first `_p`. -/
def splitProducers : List Char → List Char × Option (List Char)
  | [] => ([], none)
  | [c] => ([c], none)
  | c :: d :: rest =>
    if c = '_' ∧ d = 'p' then ([], some rest)
    else
      let (front, back) := splitProducers (d :: rest)
      (c :: front, back)

/-- The part of a name between the beginning and the ending of the family. -/
def middle? (family : Family) (name : List Char) : Option (List Char) :=
  if family.opening.toList.isPrefixOf name then
    let rest := name.drop family.opening.toList.length
    if family.extension.toList.isSuffixOf rest then
      some (rest.take (rest.length - family.extension.toList.length))
    else none
  else none

def decode (family : Family) (name : String) : NameKey :=
  match family.middle? name.toList with
  | none => .malformed
  | some middle =>
    match splitProducers middle with
    | (queue, some producers) =>
      match Decimal.natBelow? Json.wordBound queue, Decimal.natBelow? Json.halfWordBound producers with
      | some q, some p => .exact ⟨UInt64.ofNat q, UInt32.ofNat p⟩
      | _, _ => .malformed
    | (queue, none) =>
      match Decimal.natBelow? Json.wordBound queue with
      | some q => if family.needsProducers then .malformed else .producerDefaulted ⟨UInt64.ofNat q, 0⟩
      | none => .malformed

/-- The file name of a key, with both coordinates. -/
def encode (family : Family) (key : Key) : String :=
  family.opening ++ String.ofList (Decimal.digits key.queueSize.toNat) ++ "_p" ++
    String.ofList (Decimal.digits key.producerCount.toNat) ++ family.extension

/-- The last component of a path as bytes. Slashes at the end and single dots do not count; there is
none after `..` or in a path without components. -/
def lastComponent? (path : List UInt8) : Option (List UInt8) :=
  let parts := (Text.cut (· == 0x2F) path).filter fun part => !part.isEmpty && part != [0x2E]
  match parts.getLast? with
  | some part => if part = [0x2E, 0x2E] then none else some part
  | none => none

/-- Reads the file name at the end of a path; one that is not UTF-8 is malformed. -/
def decodePath (family : Family) (path : List UInt8) : NameKey :=
  match (lastComponent? path).bind Text.Utf8.decode? with
  | some name => family.decode (String.ofList name)
  | none => .malformed

end Family

end QueueBench
