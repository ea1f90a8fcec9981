set_option autoImplicit false

/- UTF-8 as a machine over bytes. Every longest front of a well-formed sequence that breaks off
counts as one fault; lossy decoding writes U+FFFD for a fault, strict decoding refuses it. The
machine is in its start state after every ASCII byte, whatever came before. -/
namespace QueueBench.Text.Utf8

/-- A sequence under way: the value so far, the bytes still owed, and where the next may lie. -/
structure Partial where
  value : Nat
  owed : Nat
  low : UInt8
  high : UInt8
deriving DecidableEq, Repr

/-- What one lead byte begins: a character, a longer sequence, or neither. -/
inductive Lead where
  | char (c : Char)
  | sequence (p : Partial)
  | fault
deriving DecidableEq, Repr

def lead (b : UInt8) : Lead :=
  if b < 0x80 then .char (Char.ofNat b.toNat)
  else if b < 0xC2 then .fault
  else if b < 0xE0 then .sequence ⟨b.toNat % 32, 1, 0x80, 0xBF⟩
  else if b = 0xE0 then .sequence ⟨0, 2, 0xA0, 0xBF⟩
  else if b = 0xED then .sequence ⟨13, 2, 0x80, 0x9F⟩
  else if b < 0xF0 then .sequence ⟨b.toNat % 16, 2, 0x80, 0xBF⟩
  else if b = 0xF0 then .sequence ⟨0, 3, 0x90, 0xBF⟩
  else if b < 0xF4 then .sequence ⟨b.toNat % 8, 3, 0x80, 0xBF⟩
  else if b = 0xF4 then .sequence ⟨4, 3, 0x80, 0x8F⟩
  else .fault

/-- The state of decoding: an open sequence, and what was read, latest first (`none` is a fault). -/
structure Scan where
  pending : Option Partial
  read : List (Option Char)
deriving DecidableEq, Repr

def Scan.start (read : List (Option Char)) (b : UInt8) : Scan :=
  match lead b with
  | .char c => ⟨none, some c :: read⟩
  | .sequence p => ⟨some p, read⟩
  | .fault => ⟨none, none :: read⟩

/-- A byte in any state. A byte that cannot go on ends the open sequence as a fault. -/
def Scan.step (s : Scan) (b : UInt8) : Scan :=
  match s.pending with
  | none => Scan.start s.read b
  | some p =>
    if p.low ≤ b ∧ b ≤ p.high then
      let value := p.value * 64 + b.toNat % 64
      if p.owed ≤ 1 then ⟨none, some (Char.ofNat value) :: s.read⟩
      else ⟨some ⟨value, p.owed - 1, 0x80, 0xBF⟩, s.read⟩
    else Scan.start (none :: s.read) b

def Scan.finish (s : Scan) : List (Option Char) :=
  match s.pending with
  | none => s.read.reverse
  | some _ => (none :: s.read).reverse

/-- The characters and faults of a byte sequence, in order. -/
def scan (bytes : List UInt8) : List (Option Char) :=
  (bytes.foldl Scan.step ⟨none, []⟩).finish

/-- Decodes with U+FFFD for every fault. -/
def decodeLossy (bytes : List UInt8) : List Char :=
  (scan bytes).map fun c => c.getD (Char.ofNat 0xFFFD)

def decode? (bytes : List UInt8) : Option (List Char) :=
  let read := scan bytes
  if read.all Option.isSome then some (read.map fun c => c.getD (Char.ofNat 0xFFFD)) else none

def encode (cs : List Char) : List UInt8 :=
  cs.flatMap String.utf8EncodeChar

end QueueBench.Text.Utf8
