import QueueBench.FileTree
import QueueBench.Settings.Toml

set_option autoImplicit false

namespace QueueBench.Settings

/-- The file that is used when no other is named. -/
def standardPath : String := "mpsc-bench.toml"

def pathVariable : String := "MPSC_BENCH_CONFIG"

/-- The largest size of a settings file in bytes. -/
def maxFileSize : Nat := 1024 * 1024

def ofBytes (content : ByteArray) : Except Problem Settings :=
  if maxFileSize < content.size then .error (.fault .fileTooLarge)
  else match Text.Utf8.decode? content.data.toList with
    | some text => ofText (String.ofList text)
    | none => .error (.fault .notText)

def loadFile (tree : FileTree) (path : String) : Except Problem Settings :=
  match tree.read path with
  | .ok content => ofBytes content
  | .error fault => .error (.unreadable path fault)

/-- The file to be used: the one asked for, or the one that the environment names unless that is
blank, or the one of the standard name. -/
def pathFor (tree : FileTree) (asked environment : Option String) : Option String :=
  match asked with
  | some path => some path
  | none =>
    match environment.filter fun path => !(Text.trim path.toList).isEmpty with
    | some path => some path
    | none => if tree.isFile standardPath then some standardPath else none

def load (tree : FileTree) (asked environment : Option String) : Except Problem Settings :=
  match pathFor tree asked environment with
  | some path => loadFile tree path
  | none => .ok .standard

end QueueBench.Settings
