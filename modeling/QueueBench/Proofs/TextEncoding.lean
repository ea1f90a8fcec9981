import QueueBench.Proofs.CharacterSequences

set_option autoImplicit false

namespace QueueBench.Text.Utf8

theorem encode_cons (c : Char) (cs : List Char) :
    encode (c :: cs) = String.utf8EncodeChar c ++ encode cs := by
  unfold encode
  exact List.flatMap_cons

theorem encode_append (cs ds : List Char) : encode (cs ++ ds) = encode cs ++ encode ds := by
  unfold encode
  exact List.flatMap_append

theorem encode_concat (cs : List Char) (c : Char) :
    encode (cs ++ [c]) = encode cs ++ String.utf8EncodeChar c := by
  rw [encode_append]
  exact congrArg (encode cs ++ ·) (List.flatMap_singleton _ c)

theorem toUTF8_eq_encode (s : String) : s.toUTF8.data.toList = encode s.toList := by
  have bytes : s.toUTF8 = s.toList.utf8Encode := String.utf8Encode_toList.symm
  rw [bytes, List.utf8Encode, List.toList_data_toByteArray]
  rfl

namespace Partial.Opened

variable {p : Partial} {front : List UInt8} (opened : p.Opened front) {b : UInt8}
  (lower : p.low ≤ b) (upper : b ≤ p.high)
include opened lower upper

theorem leads_on {v : Nat} (agrees : v / 64 ^ (p.owed - 1) = p.value * 64 + b.toNat % 64) :
    v.isValidChar ∧
      String.utf8EncodeChar (Char.ofNat v) = front ++ b :: trail v (p.owed - 1) := by
  have above := opened.low
  have below := opened.high
  have lower' : p.low.toNat ≤ b.toNat := lower
  have upper' : b.toNat ≤ p.high.toNat := upper
  obtain ⟨valid, encoded⟩ := opened.leads v ⟨by omega, by omega⟩
  have byte : b = UInt8.ofNat (v / 64 ^ (p.owed - 1) % 64 + 0x80) :=
    eq_ofNat_of_toNat (by omega)
  refine ⟨valid, ?_⟩
  rw [encoded, trail_of_pos v opened.owed, ← byte]

theorem next (more : ¬ p.owed ≤ 1) :
    Partial.Opened ⟨p.value * 64 + b.toNat % 64, p.owed - 1, 0x80, 0xBF⟩ (front ++ [b]) := by
  refine ⟨by simp only; omega, Nat.le_refl _, Nat.le_refl _, ?_⟩
  intro v covers
  obtain ⟨count, counted⟩ : ∃ count, p.owed = count + 2 := ⟨p.owed - 2, by omega⟩
  simp only [Covers, UInt8.reduceToNat] at covers
  have agrees : v / 64 ^ (p.owed - 1) = p.value * 64 + b.toNat % 64 := by
    simp only [counted, Nat.add_sub_cancel, Nat.add_succ_sub_one] at covers ⊢
    rw [Nat.pow_succ, ← Nat.div_div_eq_div_mul]
    omega
  rw [List.append_assoc]
  exact opened.leads_on lower upper agrees

theorem last (one : p.owed ≤ 1) :
    String.utf8EncodeChar (Char.ofNat (p.value * 64 + b.toNat % 64)) = front ++ [b] := by
  have owed : p.owed = 1 := Nat.le_antisymm one opened.owed
  have agrees : (p.value * 64 + b.toNat % 64) / 64 ^ (p.owed - 1) =
      p.value * 64 + b.toNat % 64 := by
    rw [owed, Nat.sub_self, Nat.pow_zero, Nat.div_one]
  rw [(opened.leads_on lower upper agrees).2, owed]
  rfl

end Partial.Opened

/-- The bytes taken so far encode the characters read, up to the sequence that is open. -/
structure Scan.Reads (s : Scan) (bytes : List UInt8) (cs : List Char) : Prop where
  read : s.read = (cs.map some).reverse
  bytes : ∃ front, bytes = encode cs ++ front ∧
    match s.pending with
    | none => front = []
    | some p => p.Opened front

theorem reverse_map_concat (cs : List Char) (c : Char) :
    some c :: (cs.map some).reverse = ((cs ++ [c]).map some).reverse := by
  rw [List.map_append, List.reverse_append]
  rfl

theorem mem_read_start {read : List (Option Char)} {found : Option Char} (member : found ∈ read)
    (b : UInt8) : found ∈ (Scan.start read b).read := by
  unfold Scan.start
  cases lead b with
  | char c => exact List.mem_cons_of_mem _ member
  | sequence p => exact member
  | fault => exact List.mem_cons_of_mem _ member

theorem mem_read_step {s : Scan} {found : Option Char} (member : found ∈ s.read) (b : UInt8) :
    found ∈ (s.step b).read := by
  unfold Scan.step
  cases s.pending with
  | none => exact mem_read_start member b
  | some p =>
    dsimp only
    split
    · split
      · exact List.mem_cons_of_mem _ member
      · exact member
    · exact mem_read_start (List.mem_cons_of_mem _ member) b

theorem mem_finish_foldl {s : Scan} {found : Option Char} (member : found ∈ s.read)
    (bytes : List UInt8) : found ∈ (bytes.foldl Scan.step s).finish := by
  induction bytes generalizing s with
  | nil =>
    unfold Scan.finish
    rw [List.foldl_nil]
    cases s.pending with
    | none => exact List.mem_reverse.mpr member
    | some p => exact List.mem_reverse.mpr (List.mem_cons_of_mem _ member)
  | cons b rest ih => exact ih (mem_read_step member b)

theorem reads_start {bytes : List UInt8} {cs : List Char} (encoded : bytes = encode cs)
    (b : UInt8) :
    none ∈ (Scan.start (cs.map some).reverse b).read ∨
      ∃ cs', (Scan.start (cs.map some).reverse b).Reads (bytes ++ [b]) cs' := by
  unfold Scan.start
  cases led : lead b with
  | char c =>
    obtain ⟨below, rfl⟩ := lead_char led
    refine Or.inr ⟨cs ++ [Char.ofNat b.toNat], reverse_map_concat cs _, [], ?_, rfl⟩
    rw [encode_concat, encodeChar_one below, encoded, List.append_nil, UInt8.ofNat_toNat]
  | sequence p => exact Or.inr ⟨cs, rfl, [b], congrArg (· ++ [b]) encoded, lead_opened led⟩
  | fault => exact Or.inl List.mem_cons_self

namespace Scan.Reads

/-- A byte either leaves a fault or is taken. -/
theorem step {s : Scan} {bytes : List UInt8} {cs : List Char} (reads : s.Reads bytes cs)
    (b : UInt8) : none ∈ (s.step b).read ∨ ∃ cs', (s.step b).Reads (bytes ++ [b]) cs' := by
  obtain ⟨pending, read⟩ := s
  obtain ⟨rfl, front, whole, opened⟩ := reads
  cases pending with
  | none =>
    rw [show front = [] from opened, List.append_nil] at whole
    exact reads_start whole b
  | some p =>
    unfold Scan.step
    dsimp only at opened ⊢
    by_cases inside : p.low ≤ b ∧ b ≤ p.high
    · rw [if_pos inside]
      by_cases one : p.owed ≤ 1
      · rw [if_pos one]
        refine Or.inr ⟨cs ++ [Char.ofNat (p.value * 64 + b.toNat % 64)], reverse_map_concat cs _,
          [], ?_, rfl⟩
        rw [encode_concat, opened.last inside.1 inside.2 one, whole, List.append_nil,
          List.append_assoc]
      · rw [if_neg one]
        refine Or.inr ⟨cs, rfl, front ++ [b], ?_, opened.next inside.1 inside.2 one⟩
        rw [whole, List.append_assoc]
    · rw [if_neg inside]
      exact Or.inl (mem_read_start List.mem_cons_self b)

theorem foldl {s : Scan} {taken bytes : List UInt8} {cs : List Char} (reads : s.Reads taken cs)
    (faultless : none ∉ (bytes.foldl Scan.step s).finish) :
    ∃ cs', (bytes.foldl Scan.step s).finish = cs'.map some ∧ taken ++ bytes = encode cs' := by
  induction bytes generalizing s taken cs with
  | nil =>
    obtain ⟨pending, read⟩ := s
    obtain ⟨rfl, front, whole, opened⟩ := reads
    cases pending with
    | none =>
      refine ⟨cs, List.reverse_reverse _, ?_⟩
      rw [whole, show front = [] from opened, List.append_nil, List.append_nil]
    | some p => exact absurd (List.mem_reverse.mpr List.mem_cons_self) faultless
  | cons b rest ih =>
    rcases reads.step b with fault | ⟨cs', reads'⟩
    · exact absurd (mem_finish_foldl fault rest) faultless
    · obtain ⟨final, finished, encoded⟩ := ih reads' faultless
      rw [List.append_assoc, List.singleton_append] at encoded
      exact ⟨final, finished, encoded⟩

end Scan.Reads

theorem eq_encode_of_decode? {bytes : List UInt8} {cs : List Char}
    (decoded : decode? bytes = some cs) : bytes = encode cs := by
  unfold decode? at decoded
  dsimp only at decoded
  split at decoded
  case isFalse => cases decoded
  case isTrue all =>
    have faultless : none ∉ scan bytes := by
      intro fault
      have present := List.all_eq_true.mp all none fault
      cases present
    have reads : Scan.Reads ⟨none, []⟩ [] [] := ⟨rfl, [], rfl, rfl⟩
    obtain ⟨found, finished, encoded⟩ := reads.foldl faultless
    rw [scan, finished, Option.some.injEq, List.map_map] at decoded
    have same : found = cs := by simpa [Function.comp_def] using decoded
    rw [← same]
    exact encoded

/-- The next byte of a code point that a sequence covers is in range and leads on to it. -/
theorem Partial.Covers.next {p : Partial} {v : Nat} (covers : p.Covers v)
    (above : 0x80 ≤ p.low.toNat) (below : p.high.toNat ≤ 0xBF) :
    let b := UInt8.ofNat (v / 64 ^ (p.owed - 1) % 64 + 0x80)
    (p.low ≤ b ∧ b ≤ p.high) ∧ p.value * 64 + b.toNat % 64 = v / 64 ^ (p.owed - 1) := by
  intro b
  have byte : b.toNat = v / 64 ^ (p.owed - 1) % 64 + 0x80 := by
    rw [UInt8.toNat_ofNat']
    omega
  obtain ⟨lower, upper⟩ := covers
  rw [UInt8.le_iff_toNat_le, UInt8.le_iff_toNat_le]
  omega

theorem foldl_step_trail {v owed value : Nat} {low high : UInt8} (above : 0x80 ≤ low.toNat)
    (below : high.toNat ≤ 0xBF) (covers : Partial.Covers ⟨value, owed + 1, low, high⟩ v)
    (read : List (Option Char)) :
    (trail v (owed + 1)).foldl Scan.step ⟨some ⟨value, owed + 1, low, high⟩, read⟩ =
      ⟨none, some (Char.ofNat v) :: read⟩ := by
  induction owed generalizing value low high with
  | zero =>
    obtain ⟨inside, reached⟩ := covers.next above below
    simp only [Nat.zero_add, Nat.sub_self] at inside reached
    rw [trail, List.foldl_cons, Scan.step]
    dsimp only
    rw [if_pos inside, if_pos (Nat.le_refl 1), reached, Nat.pow_zero, Nat.div_one]
    rfl
  | succ owed ih =>
    obtain ⟨inside, reached⟩ := covers.next above below
    simp only [Nat.add_sub_cancel] at inside reached
    have onward : Partial.Covers ⟨v / 64 ^ (owed + 1), owed + 1, 0x80, 0xBF⟩ v := by
      simp only [Partial.Covers, UInt8.reduceToNat, Nat.add_sub_cancel]
      rw [Nat.pow_succ, ← Nat.div_div_eq_div_mul]
      omega
    rw [trail, List.foldl_cons, Scan.step]
    dsimp only
    rw [if_pos inside, if_neg (by omega), reached, Nat.add_sub_cancel]
    exact ih (Nat.le_refl _) (Nat.le_refl _) onward

theorem foldl_step_encodeChar (c : Char) (read : List (Option Char)) :
    (String.utf8EncodeChar c).foldl Scan.step ⟨none, read⟩ = ⟨none, some c :: read⟩ := by
  obtain ⟨v, valid, rfl⟩ : ∃ v : Nat, v.isValidChar ∧ c = Char.ofNat v :=
    ⟨c.toNat, c.valid, (Char.ofNat_toNat c).symm⟩
  by_cases narrow : v < 0x80
  · have byte : (UInt8.ofNat v).toNat = v := by
      rw [UInt8.toNat_ofNat']
      omega
    have led := lead_below (b := UInt8.ofNat v) (by omega)
    rw [encodeChar_one narrow, List.foldl_cons, List.foldl_nil, Scan.step]
    dsimp only
    rw [Scan.start, led, byte]
  · obtain ⟨b, p, led, covers⟩ := exists_lead valid (by omega)
    have opened := lead_opened led
    obtain ⟨value, owed, low, high⟩ := p
    obtain ⟨count, rfl⟩ := Nat.exists_eq_add_of_le' opened.owed
    rw [(opened.leads v covers).2, List.singleton_append, List.foldl_cons, Scan.step]
    dsimp only
    rw [Scan.start, led]
    exact foldl_step_trail opened.low opened.high covers read

theorem foldl_step_encode (cs : List Char) (read : List (Option Char)) :
    (encode cs).foldl Scan.step ⟨none, read⟩ = ⟨none, (cs.map some).reverse ++ read⟩ := by
  induction cs generalizing read with
  | nil => rfl
  | cons c rest ih =>
    rw [encode_cons, List.foldl_append, foldl_step_encodeChar, ih, List.map_cons,
      List.reverse_cons, List.append_assoc, List.singleton_append]

theorem decode?_encode (cs : List Char) : decode? (encode cs) = some cs := by
  have scanned : scan (encode cs) = cs.map some := by
    rw [scan, foldl_step_encode, List.append_nil]
    exact List.reverse_reverse _
  unfold decode?
  rw [scanned]
  simp [Function.comp_def]

/-- Strict decoding reads the encodings of texts and nothing else. -/
theorem decode?_eq_some_iff {bytes : List UInt8} {cs : List Char} :
    decode? bytes = some cs ↔ bytes = encode cs := by
  constructor
  · exact eq_encode_of_decode?
  · rintro rfl
    exact decode?_encode cs

section Letters

variable {c : Char} (narrow : c.toNat < 0x80)
include narrow

theorem encodeChar_narrow : String.utf8EncodeChar c = [UInt8.ofNat c.toNat] := by
  have alone := encodeChar_one narrow
  rw [Char.ofNat_toNat] at alone
  exact alone

/-- The byte of such a letter stands in no other character. -/
theorem eq_of_mem_encodeChar {d : Char} (member : UInt8.ofNat c.toNat ∈ String.utf8EncodeChar d) :
    d = c := by
  have byte : (UInt8.ofNat c.toNat).toNat = c.toNat := by
    rw [UInt8.toNat_ofNat']
    omega
  rcases encodeChar_cases d with ⟨narrow', alone⟩ | wide
  · rw [alone, List.mem_singleton, ← UInt8.toNat_inj, byte, UInt8.toNat_ofNat',
      Nat.mod_eq_of_lt (by omega)] at member
    rw [← Char.ofNat_toNat c, ← Char.ofNat_toNat d, member]
  · have high := wide _ member
    omega

theorem exists_of_cons_eq_encode {rest : List UInt8} {cs : List Char}
    (whole : String.utf8EncodeChar c ++ rest = encode cs) :
    ∃ cs', cs = c :: cs' ∧ rest = encode cs' := by
  rw [encodeChar_narrow narrow, List.singleton_append] at whole
  cases cs with
  | nil => cases whole
  | cons d ds =>
    rw [encode_cons] at whole
    obtain ⟨b, more, sequence⟩ := List.exists_cons_of_ne_nil (String.utf8EncodeChar_ne_nil (c := d))
    rw [sequence, List.cons_append, List.cons.injEq] at whole
    have same : d = c := by
      apply eq_of_mem_encodeChar narrow
      rw [sequence, whole.1]
      exact List.mem_cons_self
    subst same
    rw [encodeChar_narrow narrow, List.cons.injEq] at sequence
    refine ⟨ds, rfl, ?_⟩
    rw [whole.2, ← sequence.2, List.nil_append]

theorem exists_of_concat_eq_encode {rest : List UInt8} {cs : List Char}
    (whole : rest ++ String.utf8EncodeChar c = encode cs) :
    ∃ cs', cs = cs' ++ [c] ∧ rest = encode cs' := by
  rw [encodeChar_narrow narrow] at whole
  rcases List.eq_nil_or_concat cs with rfl | ⟨ds, d, rfl⟩
  · cases (List.append_eq_nil_iff.mp whole).2
  · rw [List.concat_eq_append] at whole ⊢
    rw [encode_concat] at whole
    have last := congrArg List.getLast? whole
    rw [List.getLast?_concat, List.getLast?_append,
      List.getLast?_eq_some_getLast String.utf8EncodeChar_ne_nil, Option.some_or,
      Option.some.injEq] at last
    have same : d = c := by
      apply eq_of_mem_encodeChar narrow
      rw [last]
      exact List.getLast_mem _
    subst same
    rw [encodeChar_narrow narrow] at whole
    exact ⟨ds, rfl, List.append_cancel_right whole⟩

end Letters

theorem exists_of_append_eq_encode {front : List Char} (narrow : ∀ c ∈ front, c.toNat < 0x80)
    {rest : List UInt8} {cs : List Char} (whole : encode front ++ rest = encode cs) :
    ∃ cs', cs = front ++ cs' ∧ rest = encode cs' := by
  induction front generalizing cs with
  | nil => exact ⟨cs, rfl, whole⟩
  | cons c front ih =>
    rw [encode_cons, List.append_assoc] at whole
    obtain ⟨ds, rfl, inner⟩ := exists_of_cons_eq_encode (narrow c List.mem_cons_self) whole
    obtain ⟨cs', rfl, encoded⟩ :=
      ih (fun d member => narrow d (List.mem_cons_of_mem c member)) inner
    exact ⟨cs', rfl, encoded⟩

theorem exists_of_eq_encode_append {back : List Char} (narrow : ∀ c ∈ back, c.toNat < 0x80)
    {rest : List UInt8} {cs : List Char} (whole : rest ++ encode back = encode cs) :
    ∃ cs', cs = cs' ++ back ∧ rest = encode cs' := by
  induction back generalizing rest with
  | nil => exact ⟨cs, (List.append_nil cs).symm, by rw [← whole]; exact (List.append_nil rest).symm⟩
  | cons c back ih =>
    rw [encode_cons, ← List.append_assoc] at whole
    obtain ⟨ds, rfl, inner⟩ := ih (fun d member => narrow d (List.mem_cons_of_mem c member)) whole
    obtain ⟨cs', rfl, encoded⟩ := exists_of_concat_eq_encode (narrow c List.mem_cons_self) inner
    exact ⟨cs', by rw [List.append_assoc, List.singleton_append], encoded⟩

/-- Between letters of one byte the rest of the bytes decides alone whether there is a text. -/
theorem decode?_between {front back : List Char} (front_narrow : ∀ c ∈ front, c.toNat < 0x80)
    (back_narrow : ∀ c ∈ back, c.toNat < 0x80) (middle : List UInt8) :
    decode? (encode front ++ middle ++ encode back) =
      (decode? middle).map fun cs => front ++ cs ++ back := by
  apply Option.ext
  intro cs
  rw [decode?_eq_some_iff, Option.map_eq_some_iff]
  constructor
  · intro whole
    obtain ⟨ds, rfl, inner⟩ := exists_of_eq_encode_append back_narrow whole
    obtain ⟨cs', rfl, encoded⟩ := exists_of_append_eq_encode front_narrow inner
    exact ⟨cs', decode?_eq_some_iff.mpr encoded, rfl⟩
  · rintro ⟨cs', decoded, rfl⟩
    rw [eq_encode_of_decode? decoded, encode_append, encode_append]

end QueueBench.Text.Utf8
