import QueueBench.Text.Blank

set_option autoImplicit false

namespace QueueBench.Text

/-- Drops one carriage return at the end. -/
def dropReturn (line : List Char) : List Char :=
  if line.getLast? = some '\r' then line.dropLast else line

/-- The lines of a text that ends without an open line, or with one. -/
def lines (cs : List Char) : List (List Char) :=
  match (cut (· == '\n') cs).reverse with
  | [] => []
  | last :: closed =>
    (closed.reverse.map dropReturn) ++ (if last.isEmpty then [] else [last])

end QueueBench.Text
