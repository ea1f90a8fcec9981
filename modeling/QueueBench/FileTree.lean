import QueueBench.Source.Listing

set_option autoImplicit false

/- File trees: what a run sees of the file system. A location is the list of names that lead to it
from the root. Paths that do not begin at the root begin at the working directory. -/
namespace QueueBench

abbrev FileName := List UInt8

/-- The names that lead from the root to a place below it. -/
abbrev Location := List FileName

/-- What stands at a location. A file has its content or why that cannot be read. -/
inductive Node where
  | file (content : Except PathFault ByteArray)
  | directory

/-- Files and directories with the location of the working directory. -/
structure FileTree where
  home : Location
  nodes : List (Location × Node)

namespace FileTree

/-- What stands at a location; the root is always there. -/
def node? (tree : FileTree) (location : Location) : Option Node :=
  if location.isEmpty then some .directory
  else (tree.nodes.find? fun n => n.1 == location).map (·.2)

def set (tree : FileTree) (location : Location) (node : Node) : FileTree :=
  if tree.nodes.any fun n => n.1 == location then
    { tree with nodes := tree.nodes.map fun n => if n.1 == location then (location, node) else n }
  else { tree with nodes := tree.nodes ++ [(location, node)] }

/-- The names of a path between its slashes. -/
def pieces (path : String) : List FileName :=
  Text.cut (· == 0x2F) path.toUTF8.data.toList

/-- A name that stays where it is. -/
def isDot (name : FileName) : Bool := name.isEmpty || name == [0x2E]

def isUp (name : FileName) : Bool := name == [0x2E, 0x2E]

/-- Follows names from a location. Every name, also an empty one, asks for a directory. -/
def follow (tree : FileTree) : Location → List FileName → Except PathFault (Location × Node)
  | location, [] =>
    match tree.node? location with
    | some node => .ok (location, node)
    | none => .error .notFound
  | location, name :: rest =>
    match tree.node? location with
    | none => .error .notFound
    | some (.file _) => .error .notDirectory
    | some .directory =>
      if isDot name then follow tree location rest
      else if isUp name then follow tree location.dropLast rest
      else follow tree (location ++ [name]) rest

def origin (tree : FileTree) (path : String) : Location :=
  if path.toList.head? = some '/' then [] else tree.home

/-- What a path leads to. An empty path leads nowhere. -/
def resolve (tree : FileTree) (path : String) : Except PathFault (Location × Node) :=
  if path.isEmpty then .error .notFound else tree.follow (tree.origin path) (pieces path)

def isDirectory (tree : FileTree) (path : String) : Bool :=
  match tree.resolve path with
  | .ok (_, .directory) => true
  | _ => false

def isFile (tree : FileTree) (path : String) : Bool :=
  match tree.resolve path with
  | .ok (_, .file _) => true
  | _ => false

def read (tree : FileTree) (path : String) : Except PathFault ByteArray := do
  match ← tree.resolve path with
  | (_, .file content) => content
  | (_, .directory) => .error .isDirectory

/-- The name of a location within a directory, if it lies directly in it. -/
def nameIn? (dir location : Location) : Option FileName :=
  match location.getLast? with
  | some name => if location.dropLast = dir then some name else none
  | none => none

def entriesOf (tree : FileTree) (dir : Location) : List DirEntry :=
  tree.nodes.filterMap fun (location, node) =>
    (nameIn? dir location).map fun name =>
      match node with
      | .file content => ⟨name, some content⟩
      | .directory => ⟨name, none⟩

def list (tree : FileTree) (path : String) : Except PathFault (List DirEntry) := do
  match ← tree.resolve path with
  | (location, .directory) => .ok (tree.entriesOf location)
  | (_, .file _) => .error .notDirectory

/-- The names of a path without the empty ones at its end, and whether there were any. -/
def dropTrailing (names : List FileName) : List FileName × Bool :=
  let rest := names.reverse.dropWhile List.isEmpty
  (rest.reverse, rest.length < names.length)

/-- Writes a file, which need not exist but whose directory must. -/
def write (tree : FileTree) (path : String) (content : ByteArray) : Except PathFault FileTree := do
  if path.isEmpty then .error .notFound
  let (names, slash) := dropTrailing (pieces path)
  let last := names.getLast?.getD []
  match ← tree.follow (tree.origin path) names.dropLast with
  | (_, .file _) => .error .notDirectory
  | (dir, .directory) =>
    if slash ∨ isDot last ∨ isUp last then .error .isDirectory
    else match tree.node? (dir ++ [last]) with
      | some .directory => .error .isDirectory
      | _ => .ok (tree.set (dir ++ [last]) (.file (.ok content)))

/-- Adds a directory together with those above it. -/
def addDirectory (tree : FileTree) (location : Location) : FileTree :=
  (List.range location.length).foldl (fun tree depth =>
    let above := location.take (depth + 1)
    match tree.node? above with
    | some _ => tree
    | none => tree.set above .directory) tree

/-- Sets what stands at a location together with the directories above it. -/
def addNode (tree : FileTree) (location : Location) (node : Node) : FileTree :=
  (tree.addDirectory location.dropLast).set location node

def addFile (tree : FileTree) (location : Location) (content : ByteArray) : FileTree :=
  tree.addNode location (.file (.ok content))

/-- The tree that holds nothing but its working directory. -/
def empty (home : Location) : FileTree := addDirectory ⟨home, []⟩ home

end FileTree

end QueueBench
