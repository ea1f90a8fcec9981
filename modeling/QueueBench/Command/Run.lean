import QueueBench.Command.Arguments
import QueueBench.Ingest
import QueueBench.Settings.Load

set_option autoImplicit false

namespace QueueBench

/-- The environment variables that a run looks at. -/
structure Surroundings where
  settings : Option String
  log : Option String

def Surroundings.logVariable : String := "RUST_LOG"

structure Outcome where
  succeeded : Bool
  output : String
  events : List Event
  complaint : Option String
  tree : FileTree

namespace Command

/-- What a command that went well printed, and the tree after it. -/
structure Success where
  output : String
  tree : FileTree

def settingsFor (surroundings : Surroundings) (tree : FileTree) (asked : Option String) :
    Except String Settings :=
  match Settings.load tree asked surroundings.settings with
  | .ok settings => .ok settings
  | .error problem => .error ("failed to load config: " ++ problem.message)

/-- Delivers a rendered dataset, to a file or as output. -/
def deliver (tree : FileTree) (text : String) : Option String → Logged (Except String Success)
  | none => .silent (.ok ⟨text ++ "\n", tree⟩)
  | some path =>
    match tree.write path text.toUTF8 with
    | .ok tree => ⟨.ok ⟨"", tree⟩, [.datasetWritten path]⟩
    | .error fault => .silent (.error ("failed to write " ++ path ++ ": " ++ fault.message))

def execute (surroundings : Surroundings) (tree : FileTree) :
    Command → Logged (Except String Success)
  | .validate asked =>
    match settingsFor surroundings tree asked with
    | .error message => .silent (.error message)
    | .ok _ => .silent (.ok ⟨"config ok\n", tree⟩)
  | .ingest input asked output =>
    match settingsFor surroundings tree asked with
    | .error message => .silent (.error message)
    | .ok settings => do
      match ← Dataset.ofPath settings tree input with
      | .error failure => return .error ("ingestion failed: " ++ failure.message)
      | .ok dataset => deliver tree dataset.toJson.indented output

/-- The levels that a log can be limited to. -/
def limits : List (String × Nat) :=
  [("off", 0), ("error", Level.error.rank), ("warn", Level.warn.rank), ("info", Level.info.rank),
    ("debug", Level.debug.rank), ("trace", Level.trace.rank), ("", Level.error.rank)]

/-- The rank of the last level that is shown: the one asked for, or one that suits the command
line. -/
def limit (verbose : Bool) (asked : Option String) : Nat :=
  match asked.bind fun word => limits.lookup (String.ofList (word.toList.map Char.toLower)) with
  | some rank => rank
  | none => if verbose then Level.debug.rank else Level.info.rank

def run (surroundings : Surroundings) (tree : FileTree) (invocation : Invocation) : Outcome :=
  let ⟨result, events⟩ := execute surroundings tree invocation.command
  let shown := List.filter fun e : Event =>
    e.level.rank ≤ limit invocation.verbose surroundings.log
  match result with
  | .ok success => ⟨true, success.output, shown events, none, success.tree⟩
  | .error message => ⟨false, "", shown (events ++ [.commandFailed message]), some message, tree⟩

end Command

def Outcome.exitCode (outcome : Outcome) : UInt32 := if outcome.succeeded then 0 else 1

/-- The lines of the log and then of the complaint. -/
def Outcome.report (outcome : Outcome) : List String :=
  outcome.events.map Event.line ++ outcome.complaint.toList

end QueueBench
