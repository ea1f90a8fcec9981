import QueueBench.Key

set_option autoImplicit false

namespace QueueBench

/-- What a document gave for its file name's key. -/
inductive IndexEntry where
  | resolved (key : Key)
  | unusable (reason : String)
deriving DecidableEq

/-- The entries by the key of the file name. -/
abbrev KeyIndex := Table Key IndexEntry

namespace KeyIndex

/-- Adds an entry, unless the key has one. -/
def add (index : KeyIndex) (fileKey : Key) (entry : IndexEntry) : KeyIndex :=
  index.insertNew fileKey entry

def ofEntries (entries : List (Key × IndexEntry)) : KeyIndex :=
  entries.foldl (fun index e => index.add e.1 e.2) ∅

end KeyIndex

end QueueBench
