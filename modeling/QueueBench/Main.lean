import QueueBench.Command.Run

set_option autoImplicit false

namespace QueueBench.Main

def pathOf (location : Location) : String :=
  "/" ++ String.intercalate "/"
    (location.map fun name => String.ofList (Text.Utf8.decodeLossy name))

/-- Copies what stands at a location, without what lies in it. -/
def copyNode (tree : FileTree) (location : Location) : IO FileTree := do
  let place := (← IO.currentDir) / pathOf location
  if ← place.isDir then return tree.addDirectory location
  else if ← place.pathExists then
    match ← (IO.FS.readBinFile place).toBaseIO with
    | .ok content => return tree.addFile location content
    | .error fault => return tree.addNode location (.file (.error (.other (toString fault))))
  else return tree

def copyArtifacts (tree : FileTree) (location : Location) : IO FileTree := do
  let place := (← IO.currentDir) / pathOf location
  if ← place.isDir then
    ((← place.readDir).filter fun entry => Family.anyMatchesName entry.fileName).foldlM
      (fun tree entry => copyNode tree (location ++ [entry.fileName.toUTF8.data.toList])) tree
  else return tree

/-- Copies everything on the way along names from a location, and the artifacts in a directory at
the end. -/
def copyAlong (tree : FileTree) (location : Location) : List FileName → IO FileTree
  | [] => copyArtifacts tree location
  | name :: rest => do
    if FileTree.isDot name then copyAlong tree location rest
    else if FileTree.isUp name then copyAlong tree location.dropLast rest
    else
      let next := location ++ [name]
      copyAlong (← copyNode tree next) next rest

def copy (tree : FileTree) (path : String) : IO FileTree :=
  copyAlong tree (tree.origin path) (FileTree.pieces path)

/-- The paths that a command may look at. -/
def pathsOf (surroundings : Surroundings) : Command → List String
  | .ingest input settings output =>
    input :: Settings.standardPath ::
      (settings.toList ++ surroundings.settings.toList ++ output.toList)
  | .validate settings =>
    Settings.standardPath :: (settings.toList ++ surroundings.settings.toList)

def savedBy : Command → Option String
  | .ingest _ _ output => output
  | .validate _ => none

def perform (invocation : Invocation) : IO UInt32 := do
  let surroundings : Surroundings :=
    ⟨← IO.getEnv Settings.pathVariable, ← IO.getEnv Surroundings.logVariable⟩
  let home := (FileTree.pieces (← IO.currentDir).toString).filter fun name => !name.isEmpty
  let tree ← (pathsOf surroundings invocation.command).foldlM copy (FileTree.empty home)
  let outcome := Command.run surroundings tree invocation
  if outcome.succeeded then
    for path in savedBy invocation.command do
      if let .ok content := outcome.tree.read path then IO.FS.writeBinFile path content
  for line in outcome.report do
    IO.eprintln line
  IO.print outcome.output
  return outcome.exitCode

end QueueBench.Main

def main (arguments : List String) : IO UInt32 := do
  match QueueBench.Arguments.parse arguments with
  | .ok invocation => QueueBench.Main.perform invocation
  | .error stop =>
    if stop.exitCode = 0 then IO.print stop.text else IO.eprint stop.text
    return stop.exitCode
