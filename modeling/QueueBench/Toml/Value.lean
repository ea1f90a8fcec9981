import QueueBench.Table

set_option autoImplicit false

/- TOML values, and tables while they are put together. Tables are built from headers and dotted
keys in any order, as long as none is declared twice and no closed value is reopened. -/
namespace QueueBench.Toml

/-- A TOML value. The entries of a table stand in the order of their keys. A text may have the shape
of a number and denote none: an integer that 128 bits cannot hold, a double that is too large, or
digits with something else among them. -/
inductive Value where
  | string (s : String)
  | integer (i : Int)
  | double (x : Float)
  | notNumber (text : String)
  | boolean (b : Bool)
  | datetime (text : String)
  | array (items : List Value)
  | table (entries : List (String × Value))

inductive Fault where
  | key
  | value
  | text
  | escape
  | number
  | datetime
  | comment
  | lineEnd
  | header
  | separator
  | unclosed
  | redefined
  | tooDeep
deriving DecidableEq, Repr

def Fault.message : Fault → String
  | key => "invalid key"
  | value => "invalid value"
  | text => "invalid string"
  | escape => "invalid escape"
  | number => "invalid number"
  | datetime => "invalid date or time"
  | comment => "invalid character in comment"
  | lineEnd => "expected end of line"
  | header => "invalid table header"
  | separator => "expected separator"
  | unclosed => "unclosed bracket"
  | redefined => "duplicate key"
  | tooDeep => "too many nested brackets"

/-- How a table under construction came about: passed through by a header, begun by a dotted key,
or declared by a header of its own. -/
inductive Origin where
  | implied
  | dotted
  | declared
deriving DecidableEq, Repr

/-- A part of a document under construction: a closed value, an open table, or a list of tables of
which the last (standing first) is open. -/
inductive Item where
  | closed (v : Value)
  | table (origin : Origin) (entries : List (String × Item))
  | tables (elements : List (List (String × Item)))

abbrev Entries := List (String × Item)

namespace Item

mutual

/-- The value of an item that is complete. -/
def close : Item → Value
  | closed v => v
  | table _ entries => .table (closeEntries entries)
  | tables elements => .array (closeElements elements [])

def closeEntries : List (String × Item) → List (String × Value)
  | [] => []
  | (key, item) :: rest => (key, close item) :: closeEntries rest

def closeElements : List (List (String × Item)) → List Value → List Value
  | [], done => done
  | entries :: rest, done => closeElements rest (.table (closeEntries entries) :: done)

end

end Item

namespace Entries

/-- Changes the table that a path leads to, beginning the tables that are missing on the way as
`begun`. A dotted key may not pass through a table that has a header of its own. -/
def descend (begun : Origin) (change : Option Origin → Entries → Except Fault Entries) :
    (path : List String) → (here : Option Origin) → Entries → Except Fault Entries
  | [], here, entries => change here entries
  | key :: path, _, entries =>
    match entries.lookup key with
    | none => do
      let inner ← descend begun change path (some begun) []
      .ok (Table.putEntry key (.table begun inner) entries)
    | some (.closed _) => .error .redefined
    | some (.table origin inner) => do
      if begun = .dotted ∧ origin = .declared then .error .redefined
      let inner ← descend begun change path (some origin) inner
      .ok (Table.putEntry key (.table origin inner) entries)
    | some (.tables []) => .error .redefined
    | some (.tables (last :: before)) => do
      let last ← descend begun change path (some .declared) last
      .ok (Table.putEntry key (.tables (last :: before)) entries)

def add (key : String) (item : Item) (entries : Entries) : Except Fault Entries :=
  match entries.lookup key with
  | some _ => .error .redefined
  | none => .ok (Table.putEntry key item entries)

/-- Adds a value under a dotted key. Only tables begun by dotted keys may be extended by them. -/
def addDotted (path : List String) (key : String) (v : Value) (entries : Entries) :
    Except Fault Entries :=
  descend .dotted (fun here entries =>
    if path.isEmpty ∨ here = some .dotted then add key (.closed v) entries
    else .error .redefined) path none entries

/-- Declares a table. It may have been passed through before, but not declared. -/
def declare (path : List String) (key : String) (entries : Entries) : Except Fault Entries :=
  descend .implied (fun _ entries =>
    match entries.lookup key with
    | none => .ok (Table.putEntry key (.table .declared []) entries)
    | some (.table .implied inner) => .ok (Table.putEntry key (.table .declared inner) entries)
    | some _ => .error .redefined) path none entries

def declareElement (path : List String) (key : String) (entries : Entries) :
    Except Fault Entries :=
  descend .implied (fun _ entries =>
    match entries.lookup key with
    | none => .ok (Table.putEntry key (.tables [[]]) entries)
    | some (.tables elements) => .ok (Table.putEntry key (.tables ([] :: elements)) entries)
    | some _ => .error .redefined) path none entries

/-- Adds a value under a dotted key within the table declared last. -/
def addWithin (current path : List String) (key : String) (v : Value) (entries : Entries) :
    Except Fault Entries :=
  descend .implied (fun _ entries => addDotted path key v entries) current none entries

end Entries

end QueueBench.Toml
