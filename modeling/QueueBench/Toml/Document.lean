import QueueBench.Toml.Scalar

set_option autoImplicit false

namespace QueueBench.Toml

namespace Reader

/-- The items of an array from those read so far in reverse, up to the closing bracket. -/
def itemsFrom (item : Reader Value) : (bound : Chars) → List Value → Reader (List Value)
  | [], _ => fail .unclosed
  | _ :: bound, read => do
    gap
    match ← get with
    | [] => fail .unclosed
    | ']' :: rest =>
      set rest
      return read.reverse
    | _ =>
      let v ← item
      gap
      match ← get with
      | ',' :: rest =>
        set rest
        itemsFrom item bound (v :: read)
      | ']' :: rest =>
        set rest
        return (v :: read).reverse
      | [] => fail .unclosed
      | _ => fail .separator

/-- A key, an equals sign and a value, with `space` around the sign. -/
def keyValue (space : Reader Unit) (value : Reader Value) :
    Reader ((List String × String) × Value) := do
  let k ← key
  space
  match ← get with
  | '=' :: rest =>
    set rest
    space
    return (k, ← value)
  | _ => fail .separator

/-- The entries of an inline table up to the closing brace; lines may end between any two of its
parts. -/
def entriesFrom (value : Reader Value) : (bound : Chars) → Entries → Reader Entries
  | [], _ => fail .unclosed
  | _ :: bound, read => do
    gap
    match ← get with
    | [] => fail .unclosed
    | '\x7d' :: rest =>
      set rest
      return read
    | _ =>
      let ((path, last), v) ← keyValue gap value
      let read ← (match Entries.addDotted path last v read with
        | .ok entries => return entries
        | .error f => fail f : Reader Entries)
      gap
      match ← get with
      | ',' :: rest =>
        set rest
        entriesFrom value bound read
      | '\x7d' :: rest =>
        set rest
        return read
      | [] => fail .unclosed
      | _ => fail .separator

/-- A value whose containers are read by the given readers, each after its opening bracket. -/
def valueWith (array table : Reader Value) : Reader Value := fun s =>
  match s with
  | '"' :: '"' :: '"' :: rest => (do return .string (← long '"' true) : Reader Value) rest
  | '\'' :: '\'' :: '\'' :: rest => (do return .string (← long '\'' false) : Reader Value) rest
  | '"' :: rest => (do return .string (← basic) : Reader Value) rest
  | '\'' :: rest => (do return .string (← literal) : Reader Value) rest
  | '[' :: rest => array rest
  | '\x7b' :: rest => table rest
  | s => Scalar.reader s

/-- A value; `room` more containers may nest in it. -/
def value : (room : Nat) → Reader Value
  | 0 => valueWith (fail .tooDeep) (fail .tooDeep)
  | room + 1 =>
    valueWith
      (do return .array (← fun s => itemsFrom (value room) s [] s))
      (do
        let entries ← fun s => entriesFrom (value room) s [] s
        return .table (Item.closeEntries entries))

/-- How many containers may nest in a value. -/
def documentRoom : Nat := 80

/-- A header after its opening brackets, up to the end of its line. -/
def header (closing : Chars) : Reader (List String × String) := do
  let k ← key
  let s := dropSpace (← get)
  if closing.isPrefixOf s then
    set (s.drop closing.length)
    endOfLine
    return k
  else fail .header

end Reader

/-- A document under construction: its entries, and the path of the table declared last. -/
structure Draft where
  entries : Entries
  current : List String

/-- Lets a change of the entries fail the reader. -/
def Draft.lift (d : Draft) (current : List String) (change : Except Fault Entries) :
    Reader Draft :=
  match change with
  | .ok entries => return { d with entries := entries, current := current }
  | .error f => Reader.fail f

def Draft.line (d : Draft) : Reader Draft := fun s =>
  match s with
  | '[' :: '[' :: rest =>
    (do
      let (path, last) ← Reader.header [']', ']']
      d.lift (path ++ [last]) (d.entries.declareElement path last) : Reader Draft) rest
  | '[' :: rest =>
    (do
      let (path, last) ← Reader.header [']']
      d.lift (path ++ [last]) (d.entries.declare path last) : Reader Draft) rest
  | s =>
    (do
      let ((path, last), v) ← Reader.keyValue Reader.blanks (Reader.value Reader.documentRoom)
      let d ← d.lift d.current (d.entries.addWithin d.current path last v)
      Reader.endOfLine
      return d : Reader Draft) s

def Draft.linesFrom : (bound : Chars) → Draft → Chars → Except Fault Draft
  | [], d, _ => .ok d
  | _ :: bound, d, s =>
    match Reader.dropSpace s with
    | [] => .ok d
    | '#' :: rest =>
      match Reader.comment rest with
      | .ok rest => linesFrom bound d rest
      | .error f => .error f
    | s =>
      match Reader.afterLineEnd? s with
      | some rest => linesFrom bound d rest
      | none =>
        match d.line s with
        | .ok (d, rest) => linesFrom bound d rest
        | .error f => .error f

/-- Reads a TOML text. A byte order mark at its start does not count. -/
def parse (text : String) : Except Fault (List (String × Value)) :=
  let s := match text.toList with
    | '\uFEFF' :: rest => rest
    | s => s
  (Draft.linesFrom s ⟨[], []⟩ s).map fun d => Item.closeEntries d.entries

end QueueBench.Toml
