import QueueBench.Aggregation.Basic
import QueueBench.Source.Fault

set_option autoImplicit false

namespace QueueBench

/-- Why no key could be taken over from a throughput document. -/
inductive Unresolved where
  | noDocument (key : Key)
  | unusable (key : Key) (reason : String)
deriving DecidableEq

def Unresolved.message : Unresolved → String
  | noDocument key => "no throughput document for " ++ key.label
  | unusable key reason => "throughput document for " ++ key.label ++ " unusable: " ++ reason

inductive Failure where
  | notFound (path : String)
  | malformed (path : String) (problem : Json.Problem)
  | keyUnresolved (path : String) (why : Unresolved)
  | tooLarge (path : String) (actual limit : Nat)
  | unreadable (path : String) (fault : PathFault)
  | noResults (path : String)
  | aggregation (error : AggregationError)
deriving DecidableEq

namespace Failure

/-- The failure of a path that cannot be opened; one that is missing has a kind of its own. -/
def ofFault (path : String) : PathFault → Failure
  | .notFound => notFound path
  | fault => unreadable path fault

def countText (n : Nat) : String := String.ofList (Decimal.digits n)

def message : Failure → String
  | notFound path => "input not found: " ++ path
  | malformed path problem => "malformed source " ++ path ++ ": " ++ problem.message
  | keyUnresolved path why =>
    "configuration key unresolved for " ++ path ++ ": " ++ why.message
  | tooLarge path actual limit =>
    "source " ++ path ++ " exceeds size limit: " ++ countText actual ++ " bytes (max " ++
      countText limit ++ ")"
  | unreadable path fault => "io failure reading " ++ path ++ ": " ++ fault.message
  | noResults path => "no throughput results found in " ++ path
  | aggregation error => error.message

end Failure

end QueueBench
