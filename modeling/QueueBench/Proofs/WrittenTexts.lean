import QueueBench.Json.Printer
import QueueBench.Proofs.ReaderRuns
import QueueBench.Proofs.TextEncoding

set_option autoImplicit false

namespace QueueBench.Json.Reader

open Text.Utf8 (encode encode_cons encode_append)

variable {read s t : Bytes} {written : String}

theorem run_short {letter plain : UInt8} (short : shortEscape? letter = some plain)
    (run : TextRun (plain :: read) s written t) :
    TextRun read (0x5C :: letter :: s) written t := by
  have escaped : escape (letter :: s) = .ok ([plain], s) := by
    simp only [escape, short]
  exact .escape escaped run

theorem run_plain {bytes : Bytes} (plain : ∀ b ∈ bytes, b ≠ 0x22 ∧ b ≠ 0x5C ∧ ¬ b < 0x20)
    (run : TextRun (bytes.reverse ++ read) s written t) : TextRun read (bytes ++ s) written t := by
  induction bytes generalizing read with
  | nil => exact run
  | cons b bytes ih =>
    obtain ⟨quote, backslash, printable⟩ := plain b List.mem_cons_self
    rw [List.reverse_cons, List.append_assoc, List.singleton_append] at run
    exact .plain quote backslash printable
      (ih (fun c member => plain c (List.mem_cons_of_mem b member)) run)

theorem hexValue?_hexDigit : ∀ n < 16, String.utf8EncodeChar (hexDigit n) =
    [UInt8.ofNat (hexDigit n).toNat] ∧ hexValue? (UInt8.ofNat (hexDigit n).toNat) = some n := by
  decide

theorem run_control {c : Char} (control : c.toNat < 32)
    (run : TextRun ((String.utf8EncodeChar c).reverse ++ read) s written t) :
    TextRun read
      (encode ['\\', 'u', '0', '0', hexDigit (c.toNat / 16), hexDigit (c.toNat % 16)] ++ s)
      written t := by
  obtain ⟨first, high⟩ := hexValue?_hexDigit (c.toNat / 16) (by omega)
  obtain ⟨second, low⟩ := hexValue?_hexDigit (c.toNat % 16) (by omega)
  have bytes : encode ['\\', 'u', '0', '0', hexDigit (c.toNat / 16), hexDigit (c.toNat % 16)] =
      [0x5C, 0x75, 0x30, 0x30, UInt8.ofNat (hexDigit (c.toNat / 16)).toNat,
        UInt8.ofNat (hexDigit (c.toNat % 16)).toNat] := by
    simp only [encode_cons, first, second]
    rfl
  have zero : hexValue? 0x30 = some 0 := by decide
  have value : ((0 * 16 + 0) * 16 + c.toNat / 16) * 16 + c.toNat % 16 = c.toNat := by omega
  have unit : hexUnit (0x30 :: 0x30 :: UInt8.ofNat (hexDigit (c.toNat / 16)).toNat ::
      UInt8.ofNat (hexDigit (c.toNat % 16)).toNat :: s) = .ok (c.toNat, s) := by
    simp only [hexUnit, zero, high, low, value]
  have letter : unicodeEscape (0x30 :: 0x30 :: UInt8.ofNat (hexDigit (c.toNat / 16)).toNat ::
      UInt8.ofNat (hexDigit (c.toNat % 16)).toNat :: s) = .ok (c, s) := by
    unfold unicodeEscape
    rw [bind_of_ok unit, if_neg (by omega), if_neg (by omega), Char.ofNat_toNat]
    rfl
  rw [bytes]
  refine .escape ?_ run
  have long : shortEscape? 0x75 = none := by decide
  simp only [List.append_eq, List.nil_append, List.cons_append, escape, long, ↓reduceIte, letter]
  rfl

theorem eq_of_toNat {c : Char} {n : Nat} (same : c.toNat = n) : c = Char.ofNat n := by
  rw [← same, Char.ofNat_toNat]

/-- A letter of a quoted text is read back as its bytes. -/
theorem run_escaped {c : Char}
    (run : TextRun ((String.utf8EncodeChar c).reverse ++ read) s written t) :
    TextRun read (encode (escaped c) ++ s) written t := by
  unfold escaped
  split
  case isTrue same =>
    subst same
    exact run_short (by decide) run
  split
  case isTrue same =>
    subst same
    exact run_short (by decide) run
  split
  case isTrue same =>
    cases eq_of_toNat same
    exact run_short (by decide) run
  split
  case isTrue same =>
    cases eq_of_toNat same
    exact run_short (by decide) run
  split
  case isTrue same =>
    cases eq_of_toNat same
    exact run_short (by decide) run
  split
  case isTrue same =>
    cases eq_of_toNat same
    exact run_short (by decide) run
  split
  case isTrue same =>
    cases eq_of_toNat same
    exact run_short (by decide) run
  split
  case isTrue control => exact run_control control run
  case isFalse quote backslash _ _ _ _ _ printable =>
    have alone : encode [c] = String.utf8EncodeChar c := List.flatMap_singleton _ c
    rw [alone]
    refine run_plain (fun b member => ?_) run
    have quote' : c.toNat ≠ 0x22 := fun same => quote (eq_of_toNat same)
    have backslash' : c.toNat ≠ 0x5C := fun same => backslash (eq_of_toNat same)
    have size : b.toNat ≠ 0x22 ∧ b.toNat ≠ 0x5C ∧ 0x20 ≤ b.toNat := by
      rcases Text.Utf8.encodeChar_cases c with ⟨narrow, single⟩ | wide
      · rw [single, List.mem_singleton] at member
        have byte : b.toNat = c.toNat := by
          rw [member, UInt8.toNat_ofNat', Nat.mod_eq_of_lt (by omega)]
        omega
      · have high := wide b member
        omega
    rw [UInt8.lt_iff_toNat_lt, ← UInt8.toNat_inj.ne, ← UInt8.toNat_inj.ne]
    exact ⟨size.1, size.2.1, Nat.not_lt_of_le size.2.2⟩

/-- The inside of a quoted text is read back as the text. -/
theorem run_quoted (done cs : List Char) (rest : Bytes) :
    TextRun (encode done).reverse (encode (cs.flatMap escaped) ++ 0x22 :: rest)
      (String.ofList (done ++ cs)) rest := by
  induction cs generalizing done with
  | nil =>
    refine .quote ?_
    rw [List.reverse_reverse, List.append_nil, Text.Utf8.decode?_encode]
  | cons c cs ih =>
    rw [List.flatMap_cons, encode_append, List.append_assoc]
    refine run_escaped ?_
    have next := ih (done ++ [c])
    rw [Text.Utf8.encode_concat, List.reverse_append, List.append_assoc] at next
    exact next

theorem text_quoted (written : String) (rest : Bytes) :
    text (encode (written.toList.flatMap escaped) ++ 0x22 :: rest) = .ok (written, rest) := by
  have run := run_quoted [] written.toList rest
  rw [List.nil_append, String.ofList_toList] at run
  exact text_eq_ok.mpr run

theorem encode_quoted (written : String) : encode (quoted written) =
    0x22 :: (encode (written.toList.flatMap escaped) ++ [0x22]) := by
  rw [quoted, encode_cons, encode_append]
  rfl

end QueueBench.Json.Reader
