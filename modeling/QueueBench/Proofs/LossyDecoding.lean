import QueueBench.Proofs.TextEncoding

set_option autoImplicit false

namespace QueueBench.Text.Utf8

/-- The same state when something else has been read before. -/
def Scan.behind (s : Scan) (earlier : List (Option Char)) : Scan := ⟨s.pending, s.read ++ earlier⟩

theorem start_behind (read earlier : List (Option Char)) (b : UInt8) :
    Scan.start (read ++ earlier) b = (Scan.start read b).behind earlier := by
  unfold Scan.start Scan.behind
  cases lead b <;> rfl

theorem step_behind (s : Scan) (earlier : List (Option Char)) (b : UInt8) :
    (s.behind earlier).step b = (s.step b).behind earlier := by
  obtain ⟨pending, read⟩ := s
  unfold Scan.step
  cases pending with
  | none => exact start_behind read earlier b
  | some p =>
    dsimp only [Scan.behind]
    split
    · split <;> rfl
    · exact start_behind (none :: read) earlier b

theorem foldl_step_behind (s : Scan) (earlier : List (Option Char)) (bytes : List UInt8) :
    bytes.foldl Scan.step (s.behind earlier) = (bytes.foldl Scan.step s).behind earlier := by
  induction bytes generalizing s with
  | nil => rfl
  | cons b rest ih => rw [List.foldl_cons, step_behind, ih, List.foldl_cons]

theorem finish_behind (s : Scan) (earlier : List (Option Char)) :
    (s.behind earlier).finish = earlier.reverse ++ s.finish := by
  obtain ⟨pending, read⟩ := s
  unfold Scan.finish Scan.behind
  cases pending <;> simp

/-- Every letter of one byte that was read is the letter of a byte taken. -/
def ReadOff (read : List (Option Char)) (taken : List UInt8) : Prop :=
  ∀ c, some c ∈ read → c.toNat < 0x80 → UInt8.ofNat c.toNat ∈ taken

namespace ReadOff

variable {read : List (Option Char)} {taken : List UInt8} (off : ReadOff read taken)
include off

theorem concat (b : UInt8) : ReadOff read (taken ++ [b]) := by
  intro c member narrow
  exact List.mem_append_left _ (off c member narrow)

theorem fault : ReadOff (none :: read) taken := by
  intro c member
  apply off c
  simpa using member

theorem char {c : Char} {b : UInt8} (own : c.toNat < 0x80 → UInt8.ofNat c.toNat = b) :
    ReadOff (some c :: read) (taken ++ [b]) := by
  intro d member narrow
  rcases List.mem_cons.mp member with here | before
  · rw [Option.some.inj here] at narrow ⊢
    rw [own narrow]
    exact List.mem_append_right _ List.mem_cons_self
  · exact off.concat b d before narrow

end ReadOff

/-- What holds once some bytes are taken: an open sequence has been opened by bytes, and letters of
one byte were read off their bytes. -/
structure Scan.TakenFrom (s : Scan) (taken : List UInt8) : Prop where
  opened : ∀ p, s.pending = some p → ∃ front, p.Opened front
  narrow : ReadOff s.read taken

theorem takenFrom_between {read : List (Option Char)} {taken : List UInt8}
    (off : ReadOff read taken) : Scan.TakenFrom ⟨none, read⟩ taken :=
  ⟨nofun, off⟩

theorem takenFrom_within {read : List (Option Char)} {taken front : List UInt8} {p : Partial}
    (opened : p.Opened front) (off : ReadOff read taken) :
    Scan.TakenFrom ⟨some p, read⟩ taken := by
  refine ⟨?_, off⟩
  intro q here
  rw [← Option.some.inj here]
  exact ⟨front, opened⟩

theorem takenFrom_start {read : List (Option Char)} {taken : List UInt8}
    (off : ReadOff read taken) (b : UInt8) : (Scan.start read b).TakenFrom (taken ++ [b]) := by
  unfold Scan.start
  cases led : lead b with
  | char c =>
    obtain ⟨below, rfl⟩ := lead_char led
    have value : (Char.ofNat b.toNat).toNat = b.toNat := toNat_val_ofNat (Or.inl (by omega))
    apply takenFrom_between
    apply off.char
    intro _
    rw [value, UInt8.ofNat_toNat]
  | sequence p => exact takenFrom_within (lead_opened led) (off.concat b)
  | fault => exact takenFrom_between (off.concat b).fault

namespace Scan.TakenFrom

variable {s : Scan} {taken : List UInt8}

theorem step (state : s.TakenFrom taken) (b : UInt8) : (s.step b).TakenFrom (taken ++ [b]) := by
  obtain ⟨pending, read⟩ := s
  obtain ⟨opened, off⟩ := state
  unfold Scan.step
  cases pending with
  | none => exact takenFrom_start off b
  | some p =>
    obtain ⟨front, opened⟩ := opened p rfl
    dsimp only
    by_cases inside : p.low ≤ b ∧ b ≤ p.high
    · rw [if_pos inside]
      by_cases one : p.owed ≤ 1
      · rw [if_pos one]
        apply takenFrom_between
        apply off.char
        intro narrow
        -- a sequence that ends is the encoding of its letter, and `b` is the last byte of it
        have encoded := opened.last inside.1 inside.2 one
        have last : b ∈ front ++ [b] := List.mem_append_right _ List.mem_cons_self
        rw [← encoded, encodeChar_narrow narrow, List.mem_singleton] at last
        exact last.symm
      · rw [if_neg one]
        exact takenFrom_within (opened.next inside.1 inside.2 one) (off.concat b)
    · rw [if_neg inside]
      exact takenFrom_start off.fault b

theorem foldl (state : s.TakenFrom taken) (bytes : List UInt8) :
    (bytes.foldl Scan.step s).TakenFrom (taken ++ bytes) := by
  induction bytes generalizing s taken with
  | nil =>
    rw [List.append_nil]
    exact state
  | cons b rest ih =>
    have next := ih (state.step b)
    rwa [List.append_assoc, List.singleton_append] at next

/-- A byte below `0x80` cannot go on with a sequence, so it ends one that is open as a fault. -/
theorem step_narrow (state : s.TakenFrom taken) {b : UInt8} (below : b.toNat < 0x80) :
    s.step b = Scan.behind ⟨none, []⟩ (some (Char.ofNat b.toNat) :: s.finish.reverse) := by
  obtain ⟨pending, read⟩ := s
  have led := lead_below below
  unfold Scan.step Scan.finish Scan.behind
  cases pending with
  | none =>
    simp only [Scan.start, led, List.reverse_reverse, List.nil_append]
  | some p =>
    obtain ⟨front, opened⟩ := state.opened p rfl
    have apart : ¬ (p.low ≤ b ∧ b ≤ p.high) := by
      rw [UInt8.le_iff_toNat_le]
      have high := opened.low
      omega
    simp only [if_neg apart, Scan.start, led, List.reverse_reverse, List.nil_append]

end Scan.TakenFrom

theorem takenFrom_foldl (bytes : List UInt8) :
    (bytes.foldl Scan.step ⟨none, []⟩).TakenFrom bytes := by
  have start : Scan.TakenFrom ⟨none, []⟩ [] := takenFrom_between nofun
  exact start.foldl bytes

theorem scan_append {b : UInt8} (below : b.toNat < 0x80) (front back : List UInt8) :
    scan (front ++ b :: back) = scan front ++ some (Char.ofNat b.toNat) :: scan back := by
  have state := takenFrom_foldl front
  unfold scan
  rw [List.foldl_append, List.foldl_cons, state.step_narrow below, foldl_step_behind,
    finish_behind, List.reverse_cons, List.reverse_reverse, List.append_assoc,
    List.singleton_append]

/-- What stands on the two sides of a letter of one byte is decoded apart. -/
theorem decodeLossy_append {b : UInt8} (below : b.toNat < 0x80) (front back : List UInt8) :
    decodeLossy (front ++ b :: back) =
      decodeLossy front ++ Char.ofNat b.toNat :: decodeLossy back := by
  unfold decodeLossy
  rw [scan_append below, List.map_append, List.map_cons]
  rfl

/-- No fault and no sequence of several bytes is read as a letter of one byte. -/
theorem mem_of_mem_decodeLossy {c : Char} (narrow : c.toNat < 0x80) {bytes : List UInt8}
    (member : c ∈ decodeLossy bytes) : UInt8.ofNat c.toNat ∈ bytes := by
  have state := takenFrom_foldl bytes
  obtain ⟨found, read, shown⟩ := List.mem_map.mp member
  cases found with
  | none =>
    rw [← shown] at narrow
    exact absurd narrow (by decide)
  | some d =>
    obtain rfl : d = c := shown
    apply state.narrow d _ narrow
    unfold scan Scan.finish at read
    split at read
    · exact List.mem_reverse.mp read
    · simpa using read

end QueueBench.Text.Utf8
