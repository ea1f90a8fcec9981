import QueueBench.Table
import QueueBench.Decimal.Numeral

set_option autoImplicit false

namespace QueueBench

/-- A JSON number. Integers that fit into a word stay exact, all others are doubles. -/
inductive Number where
  | natural (n : UInt64)
  | negative (i : Int64)
  | double (x : Float)
deriving DecidableEq

inductive Json where
  | null
  | boolean (b : Bool)
  | number (n : Number)
  | string (s : String)
  | array (items : List Json)
  | object (members : List (String × Json))

namespace Json

instance : Inhabited Json := ⟨null⟩

def natural (n : UInt64) : Json := number (.natural n)

/-- A number that counts something. -/
def count (n : Nat) : Json := natural (UInt64.ofNat n)

def integer (i : Int64) : Json :=
  if i < 0 then number (.negative i) else number (.natural i.toUInt64)

/-- A double as a value; JSON has no form for those that are not finite. -/
def double (x : Float) : Json := if x.isFinite then number (.double x) else null

def ofTable {α : Type} (f : α → Json) (t : Table String α) : Json :=
  object (t.entries.map fun e => (e.1, f e.2))

def isNull : Json → Bool
  | null => true
  | _ => false

/-- The value of a member; of two members of one name, the later. -/
def member? (name : String) : Json → Option Json
  | object members => (members.reverse.find? fun m => m.1 == name).map (·.2)
  | _ => none

/-- Members in the order of their names, each name once. -/
def sortMembers (members : List (String × Json)) : List (String × Json) :=
  (Table.ofList members).entries

mutual

/-- The value with the members of every object sorted, each name once. -/
def normal : Json → Json
  | array items => array (normalItems items)
  | object members => object (sortMembers (normalMembers members))
  | v => v

def normalItems : List Json → List Json
  | [] => []
  | v :: rest => normal v :: normalItems rest

def normalMembers : List (String × Json) → List (String × Json)
  | [] => []
  | (name, v) :: rest => (name, normal v) :: normalMembers rest

end

/-- The members as a table of normal forms; of two members of one name, the later stays. -/
def tableOf (members : List (String × Json)) : Table String Json :=
  Table.ofList (normalMembers members)

end Json

def Number.toDouble : Number → Float
  | .natural n => n.toFloat
  | .negative i => i.toFloat
  | .double x => x

end QueueBench
