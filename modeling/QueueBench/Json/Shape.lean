import QueueBench.Json.Reader

set_option autoImplicit false

namespace QueueBench.Json

open Document (Found Mismatch)

/-- The natural number below a bound that a number is. -/
def naturalOf (bound : Nat) (expected : String) : Number → Except Mismatch Nat
  | .natural n =>
    if n.toNat < bound then .ok n.toNat else .error (.wrongValue (.integer n.toNat) expected)
  | .negative i => .error (.wrongValue (.integer i.toInt) expected)
  | .double x => .error (.wrongType (.double x) expected)

def found : Json → Found
  | .null => .null
  | .boolean b => .boolean b
  | .number n => Reader.foundNumber n
  | .string s => .string s
  | .array _ => .sequence
  | .object _ => .map

/-- The natural number below a bound that a value is. -/
def naturalIn (bound : Nat) (expected : String) : Json → Except Mismatch Nat
  | .number n => naturalOf bound expected n
  | v => .error (.wrongType v.found expected)

def textIn (expected : String) : Json → Except Mismatch String
  | .string s => .ok s
  | v => .error (.wrongType v.found expected)

/-- The number of values of a 64-bit word. -/
def wordBound : Nat := Word.bound 64

def halfWordBound : Nat := Word.bound 32

namespace Reader

variable {α β γ σ : Type}

/-- Gives up with a departure, or goes on with a result. -/
def lift : Except Mismatch α → Reader α
  | .ok a => return a
  | .error m => reject m

/-- A number, through a check of its kind. -/
def numberWith (expected : String) (check : Number → Except Mismatch α) : Reader α := fun s =>
  match dropSpace s with
  | [] => .error (.ended .value)
  | b :: rest =>
    if b = 0x2D then (do lift (check (← number true)) : Reader α) rest
    else if isDigit b then (do lift (check (← number false)) : Reader α) (b :: rest)
    else refuse expected (b :: rest)

def natural (bound : Nat) (expected : String) : Reader Nat :=
  numberWith expected (naturalOf bound expected)

def word64 : Reader UInt64 := return UInt64.ofNat (← natural wordBound "u64")

def word32 : Reader UInt32 := return UInt32.ofNat (← natural halfWordBound "u32")

def size : Reader Nat := natural wordBound "usize"

/-- Any number as a double. -/
def double : Reader Float := numberWith "f64" fun n => .ok n.toDouble

def string (expected : String) : Reader String := fun s =>
  match dropSpace s with
  | [] => .error (.ended .value)
  | b :: rest => if b = 0x22 then text rest else refuse expected (b :: rest)

/-- A value or null. -/
def nullable (reader : Reader α) : Reader (Option α) := fun s =>
  match dropSpace s with
  | 0x6E :: rest => (do restOfNull; return none : Reader (Option α)) rest
  | s => (do return some (← reader) : Reader (Option α)) s

/-- Opens a container, or refuses what else stands there. A container within `0` is too deep. -/
def opening (expected : String) (list object : Option (Nat → Reader α)) (room : Nat) : Reader α :=
  fun s =>
    match dropSpace s with
    | [] => .error (.ended .value)
    | b :: rest =>
      let inside (body : Option (Nat → Reader α)) : Except Problem (α × Bytes) :=
        match body, room with
        | none, _ => refuse expected (b :: rest)
        | some _, 0 => .error .tooDeep
        | some body, room + 1 => body room rest
      if b = 0x5B then inside list
      else if b = 0x7B then inside object
      else refuse expected (b :: rest)

def list (item : Nat → Reader α) : Nat → Reader (List α) :=
  opening "a sequence" (some fun room => items (item room)) none

/-- An object with arbitrary names; `entry` reads from the quote of a name to the end of the
value. -/
def entriesFrom (entry : Reader α) : (bound : Bytes) → (first : Bool) → List α → Reader (List α)
  | [], _, _ => fail (.ended .object)
  | _ :: bound, first, read => do
    if ← anotherMember first then entriesFrom entry bound false ((← entry) :: read)
    else
      advance
      return read.reverse

/-- An object as a table of values of one shape. -/
def table (value : Nat → Reader α) : Nat → Reader (List (String × α)) :=
  opening "a map" none (some fun room s =>
    entriesFrom (do
      let name ← text
      colon
      return (name, ← value room)) s true [] s)

def closingQuote : Reader Unit
  | 0x22 :: rest => .ok ((), rest)
  | _ => .error .expectedQuote

/-- A name that is a natural number in quotes, after the opening quote. -/
def naturalName (bound : Nat) (expected : String) : Reader Nat := fun s =>
  match s with
  | [] => .error .keyNotNumber
  | b :: _ =>
    if isDigit b ∨ b = 0x2D then
      (do
        let n ← natural bound expected
        closingQuote
        return n : Reader Nat) s
    else .error .keyNotNumber

/-- An object whose names are natural numbers. -/
def numberTable (bound : Nat) (expected : String) (value : Nat → Reader α) :
    Nat → Reader (List (Nat × α)) :=
  opening "a map" none (some fun room s =>
    entriesFrom (do
      let name ← naturalName bound expected
      colon
      return (name, ← value room)) s true [] s)

/-- A field of a record: its name, its value's shape, and what it is if left out. -/
structure Field (α : Type) where
  name : String
  value : Nat → Reader α
  absent : Option α := none

/-- The value of a field at the end of an object. -/
def Field.close (field : Field α) : Option α → Reader α
  | some a => return a
  | none => match field.absent with
    | some a => return a
    | none => reject (.missingField field.name)

/-- Reads the value of a field that must not have come before. -/
def Field.next (field : Field α) (room : Nat) (before : Option α) : Reader α := do
  if before.isSome then reject (.duplicateField field.name)
  colon
  field.value room

def Field.item (field : Field α) (room : Nat) (shape : String) (index : Nat) (first : Bool) :
    Reader α := do
  if ← anotherItem first then field.value room
  else match field.absent with
    | some a => return a
    | none => reject (.wrongLength index shape)

/-- How a record with a number of fields is called in a diagnostic of its length. -/
def lengthText (owner : String) (fields : String) : String :=
  "struct " ++ owner ++ " with " ++ fields ++ " elements"

/-- A record of two fields, as an object or as a list of the values. -/
def record2 (owner : String) (a : Field α) (b : Field β) : Nat → Reader (α × β) :=
  opening ("struct " ++ owner)
    (some fun room => do
      let x ← a.item room (lengthText owner "2") 0 true
      let y ← b.item room (lengthText owner "2") 1 false
      endList
      return (x, y))
    (some fun room => do
      let (x, y) ← members (fun name (x, y) => do
        if name = a.name then return (some (← a.next room x), y)
        else if name = b.name then return (x, some (← b.next room y))
        else
          colon
          skip
          return (x, y)) ((none, none) : Option α × Option β)
      let x ← a.close x
      let y ← b.close y
      advance
      return (x, y))

def record3 (owner : String) (a : Field α) (b : Field β) (c : Field γ) :
    Nat → Reader (α × β × γ) :=
  opening ("struct " ++ owner)
    (some fun room => do
      let x ← a.item room (lengthText owner "3") 0 true
      let y ← b.item room (lengthText owner "3") 1 false
      let z ← c.item room (lengthText owner "3") 2 false
      endList
      return (x, y, z))
    (some fun room => do
      let (x, y, z) ← members (fun name (x, y, z) => do
        if name = a.name then return (some (← a.next room x), y, z)
        else if name = b.name then return (x, some (← b.next room y), z)
        else if name = c.name then return (x, y, some (← c.next room z))
        else
          colon
          skip
          return (x, y, z)) ((none, none, none) : Option α × Option β × Option γ)
      let x ← a.close x
      let y ← b.close y
      let z ← c.close z
      advance
      return (x, y, z))

/-- An open record: an object whose known fields are read by `step` and whose other members are
kept as trees, in order. -/
def openRecord (owner : String) (step : Nat → String → σ → Option (Reader σ)) (start : σ)
    (finish : σ → List (String × Json) → Except Mismatch α) : Nat → Reader α :=
  opening ("struct " ++ owner) none (some fun room => do
    let (state, rest) ← members (fun name (state, rest) => do
      match step room name state with
      | some known => return (← known, rest)
      | none =>
        colon
        return (state, (name, ← value room) :: rest)) (start, ([] : List (String × Json)))
    let a ← lift (finish state rest.reverse)
    advance
    return a)

/-- One of several named cases: its name, or an object whose only member has that name and is
null. -/
def variant (cases : List (String × α)) (room : Nat) : Reader α := do
  let pick (name : String) : Reader α :=
    match cases.find? fun c => c.1 == name with
    | some c => return c.2
    | none => reject (.unknownVariant name (cases.map (·.1)))
  match ← peek with
  | none => fail (.ended .value)
  | some 0x22 =>
    advance
    pick (← text)
  | some 0x7B =>
    if room = 0 then fail .tooDeep
    advance
    match ← peek with
    | none => fail (.ended .object)
    | some 0x22 => advance
    | some 0x7D => fail .expectedValue
    | some _ => fail .keyNotString
    let a ← pick (← text)
    colon
    match ← peek with
    | none => fail (.ended .value)
    | some 0x6E =>
      advance
      restOfNull
    | some _ => refuse "unit"
    match ← peek with
    | none => fail (.ended .object)
    | some 0x7D =>
      advance
      return a
    | some _ => fail .expectedValue
  | some _ => fail .expectedValue

end Reader

end QueueBench.Json
