set_option autoImplicit false

/- Comma-separated records. A quoted field holds everything up to its closing quote, and a quote in
it is written twice. Line ends before a record are passed over, so blank lines leave no record. -/
namespace QueueBench.Csv

/-- The fields of one record, as bytes. -/
abbrev Row := List (List UInt8)

inductive Place where
  | beforeRecord
  | beforeField
  | inField
  | inQuotes
  | afterQuote
deriving DecidableEq, Repr

/-- What was read so far; fields and rows are latest first, and so are the bytes of the field. -/
structure State where
  place : Place
  field : List UInt8
  fields : List (List UInt8)
  rows : List Row

def State.start : State := ⟨.beforeRecord, [], [], []⟩

def State.endField (s : State) : State :=
  { s with place := .beforeField, field := [], fields := s.field.reverse :: s.fields }

/-- Ends the field and the record. -/
def State.endRecord (s : State) : State :=
  ⟨.beforeRecord, [], [], (s.field.reverse :: s.fields).reverse :: s.rows⟩

/-- A byte of a field that is not quoted, or no longer. -/
def State.unquoted (s : State) (b : UInt8) : State :=
  if b = 0x2C then s.endField
  else if b = 0x0D ∨ b = 0x0A then s.endRecord
  else { s with place := .inField, field := b :: s.field }

def State.fieldStart (s : State) (b : UInt8) : State :=
  if b = 0x22 then { s with place := .inQuotes } else s.unquoted b

def State.step (s : State) (b : UInt8) : State :=
  match s.place with
  | .beforeRecord => if b = 0x0D ∨ b = 0x0A then s else s.fieldStart b
  | .beforeField => s.fieldStart b
  | .inField => s.unquoted b
  | .inQuotes =>
    if b = 0x22 then { s with place := .afterQuote } else { s with field := b :: s.field }
  | .afterQuote =>
    if b = 0x22 then { s with place := .inQuotes, field := b :: s.field } else s.unquoted b

/-- The rows at the end of the input, which ends a record that has begun. -/
def State.finish (s : State) : List Row :=
  match s.place with
  | .beforeRecord => s.rows.reverse
  | _ => s.endRecord.rows.reverse

/-- Drops the byte order mark at the start. -/
def dropMark : List UInt8 → List UInt8
  | 0xEF :: 0xBB :: 0xBF :: rest => rest
  | bytes => bytes

def rows (bytes : List UInt8) : List Row :=
  ((dropMark bytes).foldl State.step State.start).finish

end QueueBench.Csv
