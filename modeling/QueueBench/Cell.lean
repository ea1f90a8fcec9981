import QueueBench.Json.Shape
import QueueBench.Text.Blank

set_option autoImplicit false

namespace QueueBench

inductive Cell where
  | integer (i : Int64)
  | double (x : Float)
  | text (s : String)
deriving DecidableEq

namespace Cell

/-- The integer of a 64-bit word that a text denotes. -/
def integer? (cs : List Char) : Option Int64 :=
  match Decimal.integerBelow? (Word.bound 64) cs with
  | some i => if Word.holdsSigned 63 i then some (Int64.ofInt i) else none
  | none => none

def coerceInteger (raw : String) : Cell :=
  let trimmed := Text.trim raw.toList
  if trimmed.isEmpty then .integer 0
  else match integer? trimmed with
    | some i => .integer i
    | none => .text raw

def coerceDouble (raw : String) : Cell :=
  let trimmed := Text.trim raw.toList
  if trimmed.isEmpty then .double 0
  else match Decimal.double? trimmed with
    | some x => .double x
    | none => .text raw

def toDouble? : Cell → Option Float
  | integer i => some i.toFloat
  | double x => some x
  | text _ => none

def toInteger? : Cell → Option Int64
  | integer i => some i
  | _ => none

def isText : Cell → Bool
  | text _ => true
  | _ => false

/-- The cell as a value. Which kind of cell it was is not written. -/
def toJson : Cell → Json
  | integer i => .integer i
  | double x => .double x
  | text s => .string s

/-- The first kind of cell that a value can be. -/
def ofJson? : Json → Option Cell
  | .number (.natural n) =>
    if n.toNat < Word.bound 63 then some (.integer n.toInt64) else some (.double n.toFloat)
  | .number (.negative i) => some (.integer i)
  | .number (.double x) => some (.double x)
  | .string s => some (.text s)
  | _ => none

def reader (room : Nat) : Json.Reader Cell := do
  match ofJson? (← Json.Reader.value room) with
  | some cell => return cell
  | none => Json.Reader.reject (.noForm "FieldValue")

end Cell

end QueueBench
