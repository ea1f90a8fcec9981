import QueueBench.Dataset
import QueueBench.FileTree

set_option autoImplicit false

namespace QueueBench

def listAt (tree : FileTree) (path : String) : Except Failure (List DirEntry) :=
  match tree.list path with
  | .ok listing => .ok listing
  | .error fault => .error (.ofFault path fault)

/-- Goes on with what stands at a path. -/
def whenFound {α β : Type} (found : Except Failure α) (load : α → Logged (Except Failure β)) :
    Logged (Except Failure β) :=
  match found with
  | .ok a => load a
  | .error failure => .silent (.error failure)

/-- A load that cannot fail. -/
def Logged.succeed {α : Type} (x : Logged α) : Logged (Except Failure α) := ⟨.ok x.value, x.events⟩

namespace Throughput

def loadDirectoryAt (limit : Nat) (tree : FileTree) (path : String) :
    Logged (Except Failure Loaded) :=
  whenFound (listAt tree path) fun listing => (loadDirectory limit path listing).succeed

def loadDocumentAt (limit : Nat) (tree : FileTree) (path : String) :
    Logged (Except Failure Loaded) :=
  loadDocument limit path (tree.read path)

/-- Loads what stands at a path, a directory or a document. -/
def loadAt (limit : Nat) (tree : FileTree) (path : String) : Logged (Except Failure Loaded) :=
  if tree.isDirectory path then loadDirectoryAt limit tree path
  else loadDocumentAt limit tree path

end Throughput

def ZoneTrace.loadAt (limit : Nat) (tree : FileTree) (path : String) :
    Logged (Except Failure ZoneTrace.Loaded) :=
  whenFound (listAt tree path) fun listing => (loadDirectory limit path listing).succeed

def Counter.loadAt (catalog : Catalog) (limit : Nat) (index : KeyIndex) (tree : FileTree)
    (path : String) : Logged (Except Failure Counter.Loaded) :=
  whenFound (listAt tree path) fun listing =>
    (loadDirectory catalog limit path index listing).succeed

/-- Ingests what stands at a path, a directory of artifacts or one throughput document. -/
def Dataset.ofPath (settings : Settings) (tree : FileTree) (path : String) :
    Logged (Except Failure Dataset) :=
  if tree.isDirectory path then
    whenFound (listAt tree path) (ofDirectory settings path)
  else ofDocument settings path (tree.read path)

end QueueBench
