import QueueBench.Text.Blank

set_option autoImplicit false

namespace QueueBench

inductive Command where
  | ingest (input : String) (settings output : Option String)
  | validate (settings : Option String)
deriving DecidableEq, Repr

/-- A command and how much of its log is shown. -/
structure Invocation where
  verbose : Bool
  command : Command
deriving DecidableEq, Repr

inductive Stop where
  | usage
  | help
  | version
deriving DecidableEq, Repr

namespace Stop

def usageText : String :=
  "Usage: mpsc-bench [-v] ingest [-i PATH] [--config CONFIG] [-o FILE]\n" ++
  "       mpsc-bench [-v] config validate [--config CONFIG]\n"

/-- What is printed instead of a command's output. -/
def text : Stop → String
  | usage => usageText
  | help => usageText
  | version => "mpsc-bench 0.1.0\n"

/-- The exit code; only wrong usage counts as a failure. -/
def exitCode : Stop → UInt32
  | usage => 2
  | _ => 0

end Stop

namespace Arguments

/-- An option that takes a value. -/
inductive Slot where
  | input
  | settings
  | output
deriving DecidableEq, Repr

inductive Switch where
  | verbose
  | help
  | version
  | takes (slot : Slot)
deriving DecidableEq, Repr

/-- The options and command words that are known at one level of the command line. -/
structure Level where
  long : List (String × Switch)
  short : List (Char × Switch)
  words : List String

/-- A level with options besides those that are known everywhere. -/
def Level.of (long : List (String × Switch)) (short : List (Char × Switch))
    (words : List String) : Level :=
  ⟨("verbose", .verbose) :: ("help", .help) :: long, ('v', .verbose) :: ('h', .help) :: short, words⟩

def top : Level := .of [("version", .version)] [('V', .version)] ["ingest", "config"]

def ingest : Level :=
  .of [("input", .takes .input), ("config", .takes .settings), ("output", .takes .output)]
    [('i', .takes .input), ('o', .takes .output)] []

def config : Level := .of [] [] ["validate"]

def validate : Level := .of [("config", .takes .settings)] [] []

structure Seen where
  verbose : Bool := false
  values : List (Slot × String) := []
deriving DecidableEq, Repr

namespace Seen

def value? (seen : Seen) (slot : Slot) : Option String := seen.values.lookup slot

/-- Notes the value of an option, which must not be empty or have come before. -/
def put (seen : Seen) (slot : Slot) (value : String) : Except Stop Seen :=
  if value.isEmpty ∨ (seen.value? slot).isSome then .error .usage
  else .ok { seen with values := (slot, value) :: seen.values }

def raise (seen : Seen) : Switch → Except Stop Seen
  | .verbose => if seen.verbose then .error .usage else .ok { seen with verbose := true }
  | .help => .error .help
  | .version => .error .version
  | .takes _ => .error .usage

end Seen

/-- An option that still waits for its value, if any, after what was seen. -/
abbrev Progress := Seen × Option Slot

/-- Reads letters after one hyphen. The rest of the letters are the value of the first option that
takes one, after an equals sign if there is one. -/
def letters (level : Level) (seen : Seen) : List Char → Except Stop Progress
  | [] => .ok (seen, none)
  | c :: rest =>
    match level.short.lookup c with
    | none => .error .usage
    | some (.takes slot) =>
      match rest with
      | [] => .ok (seen, some slot)
      | '=' :: value => do return (← seen.put slot (String.ofList value), none)
      | value => do return (← seen.put slot (String.ofList value), none)
    | some switch => do letters level (← seen.raise switch) rest

def word (level : Level) (seen : Seen) (cs : List Char) : Except Stop Progress :=
  let (name, attached) := Text.splitFirst '=' cs
  match level.long.lookup (String.ofList name), attached with
  | none, _ => .error .usage
  | some (.takes slot), some value => do return (← seen.put slot (String.ofList value), none)
  | some (.takes slot), none => .ok (seen, some slot)
  | some switch, none => do return (← seen.raise switch, none)
  | some _, some _ => .error .usage

/-- Whether an argument is an option; a single hyphen is none. -/
def isOption (argument : String) : Bool :=
  match argument.toList with
  | '-' :: _ :: _ => true
  | _ => false

/-- Reads the arguments of one level up to a command word, and gives that word and what follows
it. `pending` waits for its value. -/
def scan (level : Level) (seen : Seen) (pending : Option Slot) :
    List String → Except Stop (Seen × Option (String × List String))
  | [] => if pending.isSome then .error .usage else .ok (seen, none)
  | argument :: rest =>
    match pending with
    | some slot =>
      if isOption argument then .error .usage
      else do scan level (← seen.put slot argument) none rest
    | none =>
      match argument.toList with
      | ['-', '-'] => if rest.isEmpty then .ok (seen, none) else .error .usage
      | '-' :: '-' :: cs => do
        let (seen, pending) ← word level seen cs
        scan level seen pending rest
      | '-' :: c :: cs => do
        let (seen, pending) ← letters level seen (c :: cs)
        scan level seen pending rest
      | _ => if level.words.contains argument then .ok (seen, some (argument, rest)) else .error .usage

def scanLast (level : Level) (arguments : List String) : Except Stop Seen := do
  return (← scan level {} none arguments).1

/-- The directory that is ingested if none is named. -/
def standardInput : String := "results"

def parse (arguments : List String) : Except Stop Invocation := do
  match ← scan top {} none arguments with
  | (outer, some ("ingest", rest)) =>
    let seen ← scanLast ingest rest
    return ⟨outer.verbose || seen.verbose,
      .ingest ((seen.value? .input).getD standardInput) (seen.value? .settings)
        (seen.value? .output)⟩
  | (outer, some ("config", rest)) =>
    match ← scan config {} none rest with
    | (inner, some (_, rest)) =>
      let seen ← scanLast validate rest
      return ⟨outer.verbose || inner.verbose || seen.verbose, .validate (seen.value? .settings)⟩
    | (_, none) => .error .usage
  | _ => .error .usage

end Arguments

end QueueBench
