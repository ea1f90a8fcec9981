import QueueBench.Artifact.Name
import QueueBench.Source.Failure

set_option autoImplicit false

namespace QueueBench

/-- An entry of a directory: its name as bytes and, if it is a file, its content or why that cannot
be read. -/
structure DirEntry where
  name : List UInt8
  content : Option (Except PathFault ByteArray)

/-- A file of a family found in a directory. -/
structure Artifact where
  name : String
  found : NameKey
  content : Except PathFault ByteArray

namespace Artifact

def pathIn (dir name : String) : String :=
  if dir.isEmpty ∨ dir.toList.getLast? = some '/' then dir ++ name else dir ++ "/" ++ name

/-- The artifact of a family that an entry is: a file with a UTF-8 name of the family. -/
def fromEntry (family : Family) (entry : DirEntry) : Option Artifact := do
  let content ← entry.content
  let name := String.ofList (← Text.Utf8.decode? entry.name)
  if family.matchesName name then some ⟨name, family.decode name, content⟩ else none

/-- Key first, then name. -/
def precedes (a b : Artifact) : Bool :=
  ((compare a.found.key b.found.key).then (compare a.name b.name)).isLE

/-- The artifacts of a family in a directory, by key and name. -/
def discover (family : Family) (listing : List DirEntry) : List Artifact :=
  (listing.filterMap (fromEntry family)).mergeSort precedes

end Artifact

/-- The bytes of a file within a size limit. Of a longer file one byte more than the limit is
looked at. -/
def readLimited (limit : Nat) (path : String) (content : Except PathFault ByteArray) :
    Except Failure (List UInt8) :=
  match content with
  | .error fault => .error (.ofFault path fault)
  | .ok bytes =>
    if bytes.size ≤ limit then .ok bytes.data.toList
    else .error (.tooLarge path (limit + 1) limit)

end QueueBench
