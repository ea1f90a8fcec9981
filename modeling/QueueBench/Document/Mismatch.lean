import QueueBench.Decimal.Layout
import QueueBench.Text.Shown

set_option autoImplicit false

namespace QueueBench.Document

/-- What stands in a document, as far as a diagnostic tells. -/
inductive Found where
  | null
  | boolean (b : Bool)
  | integer (i : Int)
  | double (x : Float)
  | string (s : String)
  | sequence
  | map
deriving DecidableEq

inductive Mismatch where
  | wrongType (found : Found) (expected : String)
  | wrongValue (found : Found) (expected : String)
  | wrongLength (length : Nat) (expected : String)
  | missingField (name : String)
  | duplicateField (name : String)
  | unknownField (name : String) (known : List String)
  | unknownVariant (name : String) (known : List String)
  | noForm (type : String)
deriving DecidableEq

def ticked (s : String) : String := "`" ++ s ++ "`"

/-- The wording of what was found; an integer wider than a word is marked so. -/
def Found.text (doubles : Decimal.Layout) : Found → String
  | .null => "null"
  | .boolean b => "boolean " ++ ticked (if b then "true" else "false")
  | .integer i =>
    let name := "integer " ++ ticked (String.ofList (Decimal.signedDigits i))
    if Word.holds 64 i ∨ Word.holdsSigned 63 i then name
    else if Word.holdsSigned 127 i then name ++ " as i128"
    else name ++ " as u128"
  | .double x => "floating point " ++ ticked (doubles.render x)
  | .string s => "string " ++ Text.shown s
  | .sequence => "sequence"
  | .map => "map"

def choice : List String → String
  | [a] => ticked a
  | [a, b] => ticked a ++ " or " ++ ticked b
  | names => "one of " ++ String.intercalate ", " (names.map ticked)

def Mismatch.message (doubles : Decimal.Layout) : Mismatch → String
  | .wrongType found expected => "invalid type: " ++ found.text doubles ++ ", expected " ++ expected
  | .wrongValue found expected => "invalid value: " ++ found.text doubles ++ ", expected " ++ expected
  | .wrongLength length expected =>
    "invalid length " ++ String.ofList (Decimal.digits length) ++ ", expected " ++ expected
  | .missingField name => "missing field " ++ ticked name
  | .duplicateField name => "duplicate field " ++ ticked name
  | .unknownField name known =>
    "unknown field " ++ ticked name ++ ", expected " ++ choice known
  | .unknownVariant name known =>
    "unknown variant " ++ ticked name ++ ", expected " ++ choice known
  | .noForm type => "data did not match any variant of untagged enum " ++ type

end QueueBench.Document
