import QueueBench.Json.Scanner

set_option autoImplicit false

/- Values of a JSON text: read as a tree, passed over unread, or refused. Containers may nest up to
a depth; passing over a value keeps a stack instead and has no such limit. -/
namespace QueueBench.Json.Reader

variable {α σ : Type}

/-- Whether a list has another item. The bytes are left at the item or at the closing bracket. -/
def anotherItem (first : Bool) : Reader Bool := fun s =>
  match dropSpace s with
  | [] => .error (.ended .list)
  | b :: rest =>
    if b = 0x5D then .ok (false, b :: rest)
    else if first then .ok (true, b :: rest)
    else if b = 0x2C then
      match dropSpace rest with
      | [] => .error (.ended .value)
      | c :: rest => if c = 0x5D then .error .trailingComma else .ok (true, c :: rest)
    else .error .expectedItemEnd

/-- Whether an object has another member. The bytes are left after the quote of its name or at the
closing brace. -/
def anotherMember (first : Bool) : Reader Bool := fun s =>
  match dropSpace s with
  | [] => .error (.ended .object)
  | b :: rest =>
    if b = 0x7D then .ok (false, b :: rest)
    else if first then
      if b = 0x22 then .ok (true, rest) else .error .keyNotString
    else if b = 0x2C then
      match dropSpace rest with
      | [] => .error (.ended .value)
      | c :: rest =>
        if c = 0x22 then .ok (true, rest)
        else if c = 0x7D then .error .trailingComma
        else .error .keyNotString
    else .error .expectedMemberEnd

def colon : Reader Unit := fun s =>
  match dropSpace s with
  | [] => .error (.ended .object)
  | b :: rest => if b = 0x3A then .ok ((), rest) else .error .expectedColon

/-- The end of a list of which no more is asked. -/
def endList : Reader Unit := fun s =>
  match dropSpace s with
  | [] => .error (.ended .list)
  | b :: rest =>
    if b = 0x5D then .ok ((), rest)
    else if b = 0x2C then
      match dropSpace rest with
      | c :: _ => .error (if c = 0x5D then .trailingComma else .trailingCharacters)
      | [] => .error .trailingCharacters
    else .error .trailingCharacters

/-- The items of a list from those read so far in reverse, up to the closing bracket. -/
def itemsFrom (item : Reader α) : (bound : Bytes) → (first : Bool) → List α → Reader (List α)
  | [], _, _ => fail (.ended .list)
  | _ :: bound, first, read => do
    if ← anotherItem first then itemsFrom item bound false ((← item) :: read)
    else return read.reverse

def items (item : Reader α) : Reader (List α) := do
  let all ← fun s => itemsFrom item s true [] s
  advance
  return all

/-- Runs over the members of an object up to the closing brace. The step gets each name and reads
the colon and the value. -/
def membersFrom (step : String → σ → Reader σ) :
    (bound : Bytes) → (first : Bool) → σ → Reader σ
  | [], _, _ => fail (.ended .object)
  | _ :: bound, first, state => do
    if ← anotherMember first then
      let name ← text
      membersFrom step bound false (← step name state)
    else return state

def members (step : String → σ → Reader σ) (state : σ) : Reader σ := fun s =>
  membersFrom step s true state s

/-- A value whose containers are read by the given readers, each after its opening bracket. -/
def valueWith (list object : Reader Json) : Reader Json := fun s =>
  match dropSpace s with
  | [] => .error (.ended .value)
  | b :: rest =>
    if b = 0x6E then (do restOfNull; return Json.null : Reader Json) rest
    else if b = 0x74 then (do restOfTrue; return Json.boolean true : Reader Json) rest
    else if b = 0x66 then (do restOfFalse; return Json.boolean false : Reader Json) rest
    else if b = 0x2D then (do return Json.number (← number true) : Reader Json) rest
    else if isDigit b then (do return Json.number (← number false) : Reader Json) (b :: rest)
    else if b = 0x22 then (do return Json.string (← text) : Reader Json) rest
    else if b = 0x5B then list rest
    else if b = 0x7B then object rest
    else .error .expectedValue

/-- A value as a tree; `room` more containers may nest in it. -/
def value : (room : Nat) → Reader Json
  | 0 => valueWith (fail .tooDeep) (fail .tooDeep)
  | room + 1 =>
    valueWith
      (do return Json.array (← items (value room)))
      (do
        let read ← members (fun name read => do
          colon
          return (name, ← value room) :: read) []
        advance
        return Json.object read.reverse)

/-- How many containers may nest in a document. -/
def documentRoom : Nat := 127

/-- A container that is open while a value is passed over. -/
inductive Frame where
  | list
  | object
deriving DecidableEq

def Frame.closing : Frame → UInt8
  | .list => 0x5D
  | .object => 0x7D

/-- The problem of a container that the text leaves open. -/
def Frame.open : Frame → Problem
  | .list => .ended .list
  | .object => .ended .object

/-- The problem of a container where neither a comma nor its end follows. -/
def Frame.unseparated : Frame → Problem
  | .list => .expectedItemEnd
  | .object => .expectedMemberEnd

/-- The name and colon before a value, in an object. -/
def Frame.enter : Frame → Reader Unit
  | .list => return ()
  | .object => fun s =>
    match dropSpace s with
    | [] => .error (.ended .object)
    | b :: rest => if b = 0x22 then (do skipText; colon : Reader Unit) rest else .error .keyNotString

/-- What follows a value in the open containers, innermost first: the containers still open where
another value comes next, or nothing once all are closed. -/
def afterSkipped : List Frame → Reader (List Frame)
  | [] => return []
  | frame :: outer => fun s =>
    match dropSpace s with
    | [] => .error frame.open
    | b :: rest =>
      if b = 0x2C then (do frame.enter; return frame :: outer : Reader (List Frame)) rest
      else if b = frame.closing then afterSkipped outer rest
      else .error frame.unseparated

/-- Passes over a scalar, or over the opening of a container that is not empty. -/
def skipOpening (stack : List Frame) : Reader (List Frame) := fun s =>
  let opening (frame : Frame) : Reader (List Frame) := fun s =>
    match dropSpace s with
    | [] => .error frame.open
    | b :: rest =>
      if b = frame.closing then afterSkipped stack rest
      else (do frame.enter; return frame :: stack : Reader (List Frame)) (b :: rest)
  match dropSpace s with
  | [] => .error (.ended .value)
  | b :: rest =>
    if b = 0x6E then (do restOfNull; afterSkipped stack : Reader (List Frame)) rest
    else if b = 0x74 then (do restOfTrue; afterSkipped stack : Reader (List Frame)) rest
    else if b = 0x66 then (do restOfFalse; afterSkipped stack : Reader (List Frame)) rest
    else if b = 0x2D then (do skipNumber; afterSkipped stack : Reader (List Frame)) rest
    else if isDigit b then (do skipNumber; afterSkipped stack : Reader (List Frame)) (b :: rest)
    else if b = 0x22 then (do skipText; afterSkipped stack : Reader (List Frame)) rest
    else if b = 0x5B then opening .list rest
    else if b = 0x7B then opening .object rest
    else .error .expectedValue

/-- Passes over values until every open container is closed. -/
def skipFrom : (bound : Bytes) → List Frame → Reader Unit
  | [], _ => fail (.ended .value)
  | _ :: bound, stack => do
    let stack ← skipOpening stack
    if stack.isEmpty then return () else skipFrom bound stack

def skip : Reader Unit := fun s => skipFrom s [] s

def foundNumber : Number → Document.Found
  | .natural n => .integer n.toNat
  | .negative i => .integer i.toInt
  | .double x => .double x

/-- Refuses the value at hand. Scalars are read first, so that their own problems come first. -/
def refuse (expected : String) : Reader α := fun s =>
  let found (f : Document.Found) : Reader α := reject (.wrongType f expected)
  match dropSpace s with
  | [] => .error .expectedValue
  | b :: rest =>
    if b = 0x6E then (do restOfNull; found .null : Reader α) rest
    else if b = 0x74 then (do restOfTrue; found (.boolean true) : Reader α) rest
    else if b = 0x66 then (do restOfFalse; found (.boolean false) : Reader α) rest
    else if b = 0x2D then (do found (foundNumber (← number true)) : Reader α) rest
    else if isDigit b then (do found (foundNumber (← number false)) : Reader α) (b :: rest)
    else if b = 0x22 then (do found (.string (← text)) : Reader α) rest
    else if b = 0x5B then found .sequence rest
    else if b = 0x7B then found .map rest
    else .error .expectedValue

/-- Runs a reader over a whole text, after which only blanks may follow. -/
def run (reader : Reader α) (bytes : Bytes) : Except Problem α := do
  let (a, rest) ← reader bytes
  match dropSpace rest with
  | [] => return a
  | _ :: _ => throw .trailingCharacters

end QueueBench.Json.Reader

namespace QueueBench

def Json.parse (bytes : Json.Bytes) : Except Json.Problem Json :=
  Json.Reader.run (Json.Reader.value Json.Reader.documentRoom) bytes

end QueueBench
