set_option autoImplicit false

namespace QueueBench

/-- Why the file system refuses a path; refusals without a case of their own keep its words. -/
inductive PathFault where
  | notFound
  | notDirectory
  | isDirectory
  | other (words : String)
deriving DecidableEq, Repr

def PathFault.message : PathFault → String
  | notFound => "No such file or directory (os error 2)"
  | notDirectory => "Not a directory (os error 20)"
  | isDirectory => "Is a directory (os error 21)"
  | other words => words

end QueueBench
