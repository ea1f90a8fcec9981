import QueueBench.Document.Mismatch
import QueueBench.Settings.Basic
import QueueBench.Toml.Document

set_option autoImplicit false

/- Settings as TOML text. Whatever a text leaves out keeps its standard value, and nothing unknown
is accepted. Entries are looked at in the order of their keys, so the first problem told is the
first in that order. A number that denotes nothing is a problem only where a value is read. -/
namespace QueueBench.Settings

open Document (Found Mismatch)
open Toml (Value)

inductive TextProblem where
  | fault (f : Toml.Fault)
  | mismatch (m : Mismatch)
  | notVariant
  | notEmpty
  | notNumber (text : String)

def TextProblem.message : TextProblem → String
  | fault f => f.message
  | mismatch m => m.message Decimal.pointed
  | notVariant => "expected a name or a table of one entry"
  | notEmpty => "expected an empty table"
  | notNumber text => "no number: " ++ text

/-- The name under which a date or time is a table of one entry. -/
def datetimeField : String := "$__toml_private_datetime"

/-- Reads a value of one kind. -/
abbrev Decoder (α : Type) := Value → Except TextProblem α

def found : Value → Except TextProblem Found
  | .string s => .ok (.string s)
  | .integer i => .ok (.integer i)
  | .double x => .ok (.double x)
  | .notNumber text => .error (.notNumber text)
  | .boolean b => .ok (.boolean b)
  | .datetime _ => .ok .map
  | .array _ => .ok .sequence
  | .table _ => .ok .map

def refuse {α : Type} (expected : String) : Decoder α := fun v => do
  .error (.mismatch (.wrongType (← found v) expected))

/-- Any number as a double; an integer must be a word of 64 bits. -/
def double : Decoder Float
  | .double x => .ok x
  | .integer i =>
    if Word.holds 64 i ∨ Word.holdsSigned 63 i then .ok (Decimal.ofInt i)
    else refuse "f64" (.integer i)
  | v => refuse "f64" v

def size : Decoder Nat
  | .integer i =>
    if i < 0 ∧ Word.holdsSigned 63 i then .error (.mismatch (.wrongValue (.integer i) "usize"))
    else if Word.holds 64 i then .ok i.toNat
    else refuse "usize" (.integer i)
  | v => refuse "usize" v

def boolean : Decoder Bool
  | .boolean b => .ok b
  | v => refuse "a boolean" v

def string : Decoder String
  | .string s => .ok s
  | v => refuse "a string" v

/-- The entries of a table of texts; a date or time is a table of one entry. -/
def texts : Decoder (Table String String)
  | .table entries => do
    let pairs ← entries.mapM fun (key, v) => return (key, ← string v)
    return Table.ofList pairs
  | .datetime text => .ok (Table.ofList [(datetimeField, text)])
  | v => refuse "a map" v

/-- One of several cases: its name, or a table with its name as the only key and nothing under
it. -/
def variant {α : Type} (cases : List (String × α)) : Decoder α :=
  let pick (name : String) : Except TextProblem α :=
    match cases.find? fun c => c.1 == name with
    | some c => .ok c.2
    | none => .error (.mismatch (.unknownVariant name (cases.map (·.1))))
  fun
  | .string name => pick name
  | .table [(name, content)] => do
    let a ← pick name
    match content with
    | .table [] => .ok a
    | .array [] => .ok a
    | _ => .error .notEmpty
  | _ => .error .notVariant

/-- A field of a section: its name, and how its value changes what is built. -/
structure Field (σ : Type) where
  name : String
  put : σ → Decoder σ

/-- Reads a section with the given fields, as a table or as a list of the values in order. Values
beyond the last field are passed over. -/
def fields {σ : Type} (owner : String) (known : List (Field σ)) (start : σ) : Decoder σ
  | .table entries =>
    entries.foldlM (fun state (key, v) =>
      match known.find? fun f => f.name == key with
      | some f => f.put state v
      | none => .error (.mismatch (.unknownField key (known.map (·.name))))) start
  | .datetime _ => .error (.mismatch (.unknownField datetimeField (known.map (·.name))))
  | .array items => (known.zip items).foldlM (fun state (f, v) => f.put state v) start
  | v => refuse ("struct " ++ owner) v

def aggregationRule : Decoder AggregationRule :=
  fields "AggregateConfig"
    [⟨"measurement_window_secs", fun r v => do return { r with window := ← double v }⟩,
      ⟨"duplicate_policy", fun r v => do
        return { r with duplicates := ← variant DuplicatePolicy.cases v }⟩]
    .standard

def catalog : Decoder Catalog :=
  fields "CountersConfig" [⟨"metrics", fun _ v => texts v⟩] Catalog.standard

/-- The section on loading, which sets three of the settings. -/
def ingestion (start : Settings) : Decoder Settings :=
  fields "IngestConfig"
    [⟨"max_file_bytes", fun s v => do return { s with maxFileBytes := ← size v }⟩,
      ⟨"zone_traces", fun s v => do return { s with zoneTraces := ← boolean v }⟩,
      ⟨"counters", fun s v => do return { s with counters := ← boolean v }⟩]
    start

def sections : Decoder Settings :=
  fields "BenchConfig"
    [⟨"aggregate", fun s v => do return { s with aggregation := ← aggregationRule v }⟩,
      ⟨"counters", fun s v => do return { s with metrics := ← catalog v }⟩,
      ⟨"ingest", ingestion⟩]
    .standard

inductive Problem where
  | unreadable (path : String) (fault : PathFault)
  | text (problem : TextProblem)
  | fault (f : SettingsFault)

def Problem.message : Problem → String
  | unreadable path why => "config io error: " ++ path ++ ": " ++ why.message
  | text problem => "config parse error: " ++ problem.message
  | fault f => "invalid config: " ++ f.message

/-- The settings of a text, if they meet all conditions. -/
def ofText (text : String) : Except Problem Settings :=
  match Toml.parse text with
  | .error f => .error (.text (.fault f))
  | .ok entries =>
    match sections (.table entries) with
    | .error problem => .error (.text problem)
    | .ok settings =>
      match settings.fault? with
      | some f => .error (.fault f)
      | none => .ok settings

end QueueBench.Settings
