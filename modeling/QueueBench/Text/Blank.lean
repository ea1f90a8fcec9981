set_option autoImplicit false

namespace QueueBench.Text

/-- The characters with the property White_Space. -/
def isBlank (c : Char) : Bool :=
  (9 ≤ c.toNat && c.toNat ≤ 13) || c.toNat = 0x20 || c.toNat = 0x85 || c.toNat = 0xA0 ||
    c.toNat = 0x1680 || (0x2000 ≤ c.toNat && c.toNat ≤ 0x200A) || c.toNat = 0x2028 ||
    c.toNat = 0x2029 || c.toNat = 0x202F || c.toNat = 0x205F || c.toNat = 0x3000

/-- Drops the blanks at both ends. -/
def trim (cs : List Char) : List Char :=
  ((cs.dropWhile isBlank).reverse.dropWhile isBlank).reverse

/-- Cuts a list at every separator, from the piece read so far and the pieces done. -/
def cutFrom {α : Type} (separates : α → Bool) (piece : List α) (done : List (List α)) :
    List α → List (List α)
  | [] => (piece.reverse :: done).reverse
  | a :: rest =>
    if separates a then cutFrom separates [] (piece.reverse :: done) rest
    else cutFrom separates (a :: piece) done rest

/-- The pieces of a list between separators; there is one more of them than separators. -/
def cut {α : Type} (separates : α → Bool) (as : List α) : List (List α) :=
  cutFrom separates [] [] as

/-- The words of a text: its longest runs without blanks. -/
def words (cs : List Char) : List (List Char) :=
  (cut isBlank cs).filter fun w => !w.isEmpty

/-- The part before the first occurrence of a character, and the part after it if there is one. -/
def splitFirst (c : Char) (cs : List Char) : List Char × Option (List Char) :=
  (cs.takeWhile (· != c), (cs.dropWhile (· != c)).tail?)

/-- The part before the first occurrence of a character; everything if there is none. -/
def before (c : Char) (cs : List Char) : List Char := cs.takeWhile (· != c)

end QueueBench.Text
