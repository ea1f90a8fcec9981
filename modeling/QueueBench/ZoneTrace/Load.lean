import QueueBench.Csv
import QueueBench.Event
import QueueBench.Source.Listing
import QueueBench.Source.Report
import QueueBench.ZoneTrace.Record

set_option autoImplicit false

namespace QueueBench.ZoneTrace

def columns : List String :=
  ["name", "src_file", "src_line", "total_ns", "total_perc", "counts", "mean_ns", "min_ns",
    "max_ns", "std_ns"]

/-- The text of a cell; what is not UTF-8 is replaced. -/
def cellText (bytes : List UInt8) : String := String.ofList (Text.Utf8.decodeLossy bytes)

def trimmed (s : String) : String := String.ofList (Text.trim s.toList)

/-- The columns that a header has, each with its place. Blanks around a name do not count, and of two
columns of one name the first is taken. -/
def places (header : Csv.Row) : List (String × Nat) :=
  let names := header.map fun name => trimmed (cellText name)
  columns.filterMap fun column => (names.findIdx? (· == column)).map fun i => (column, i)

/-- The text of a row's cell in a column, or nothing. -/
def cell (places : List (String × Nat)) (row : Csv.Row) (column : String) : String :=
  match (places.lookup column).bind fun i => row[i]? with
  | some bytes => cellText bytes
  | none => ""

def recordOf (key : Key) (cell : String → String) : ZoneTraceRecord :=
  { key
    name := trimmed (cell "name")
    srcFile := trimmed (cell "src_file")
    srcLine := .coerceInteger (cell "src_line")
    totalNs := .coerceDouble (cell "total_ns")
    totalPerc := .coerceDouble (cell "total_perc")
    counts := .coerceInteger (cell "counts")
    meanNs := .coerceDouble (cell "mean_ns")
    minNs := .coerceDouble (cell "min_ns")
    maxNs := .coerceDouble (cell "max_ns")
    stdNs := .coerceDouble (cell "std_ns") }

/-- The records of an export's rows, the first of which is the header. -/
def recordsOf (key : Key) : List Csv.Row → List ZoneTraceRecord
  | [] => []
  | header :: rows =>
    let places := places header
    rows.map fun row => recordOf key (cell places row)

def missingColumns (rows : List Csv.Row) : List String :=
  let places := places (rows.head?.getD [])
  columns.filter fun column => (places.lookup column).isNone

structure Export where
  records : List ZoneTraceRecord
  report : SourceReport
  events : List Event

/-- Reads one export. Only one that is too large or cannot be read at all is passed over. -/
def Export.ofArtifact (limit : Nat) (dir : String) (a : Artifact) : Export :=
  let path := Artifact.pathIn dir a.name
  match readLimited limit path a.content with
  | .error failure =>
    ⟨[], .skipped path .zoneTrace failure.message, [.traceSkipped path failure]⟩
  | .ok bytes =>
    let rows := Csv.rows bytes
    let records := recordsOf a.found.key rows
    let missing := missingColumns rows
    let warning := if missing.isEmpty then [] else [Event.columnsMissing path missing]
    ⟨records, ⟨path, .zoneTrace, .ofName .zoneTrace a.found, records.length⟩,
      warning ++ [.traceLoaded path records.length]⟩

structure Loaded where
  records : List ZoneTraceRecord
  sources : List SourceReport

def loadDirectory (limit : Nat) (dir : String) (listing : List DirEntry) : Logged Loaded :=
  let exports := (Artifact.discover .zoneTrace listing).map (Export.ofArtifact limit dir)
  ⟨⟨exports.flatMap (·.records), exports.map (·.report)⟩, exports.flatMap (·.events)⟩

end QueueBench.ZoneTrace
