import QueueBench.Proofs.WrittenValues

set_option autoImplicit false

namespace QueueBench.Json.Reader

open Text.Utf8 (encode)

variable {α β σ : Type}

/-- Reads a member of an open record, or keeps it as a tree. -/
def openStep (step : Nat → String → σ → Option (Reader σ)) (room : Nat) (name : String)
    (all : σ × List (String × Json)) : Reader (σ × List (String × Json)) := do
  match step room name all.1 with
  | some known => return (← known, all.2)
  | none =>
    colon
    return (all.1, (name, ← value room) :: all.2)

/-- Reads the colon and the value of a field that must not have come before. -/
def onceStep (before : Bool) (name : String) (value : Reader β) (put : β → σ) : Reader σ :=
  if before then do
    reject (.duplicateField name)
    colon
    return put (← value)
  else do
    colon
    return put (← value)

theorem onceStep_written (before : Bool) (name : String) (value : Reader β) (put : β → σ)
    (s : Bytes) :
    onceStep before name value put (0x3A :: s) =
      if before then .error (.mismatch (.duplicateField name))
      else (value s).map fun read => (put read.1, read.2) := by
  unfold onceStep
  split
  · exact bind_of_error rfl
  · rw [bind_of_ok (colon_eq_ok.mpr (dropSpace_cons (by decide) s))]
    cases read : value s with
    | error p => exact bind_of_error read
    | ok r => exact bind_of_ok read

theorem openStep_known {step : Nat → String → σ → Option (Reader σ)} {room : Nat} {name : String}
    {state : σ} {known : Reader σ} (knows : step room name state = some known)
    (kept : List (String × Json)) (s : Bytes) :
    openStep step room name (state, kept) s =
      (known s).map fun read => ((read.1, kept), read.2) := by
  unfold openStep
  dsimp only
  rw [knows]
  dsimp only
  cases read : known s with
  | error p => exact bind_of_error read
  | ok r => exact bind_of_ok read

theorem openStep_other {step : Nat → String → σ → Option (Reader σ)} {room : Nat} {name : String}
    {state : σ} (unknown : step room name state = none) {v : Json} (writes : WritesBack room v)
    (kept : List (String × Json)) {rest : Bytes} (ends : Ends rest) :
    openStep step room name (state, kept) (0x3A :: (encode v.chars ++ rest)) =
      .ok ((state, (name, v) :: kept), rest) := by
  unfold openStep
  dsimp only
  rw [unknown]
  dsimp only
  rw [bind_of_ok (colon_eq_ok.mpr (dropSpace_cons (by decide) _)),
    bind_of_ok (writes.reads rest ends)]
  rfl

theorem readsAs_map (f : α → β) {reader : Reader α} {v : Json} {a : α}
    (reads : ReadsAs reader v a) : ReadsAs (do return f (← reader)) v (f a) := by
  intro rest ends
  exact map_eq_ok.mpr ⟨a, reads rest ends, rfl⟩

theorem readsAs_string (expected s : String) : ReadsAs (string expected) (.string s) s := by
  intro rest _
  rw [encode_string, string, dropSpace_cons (by decide)]
  exact text_quoted s rest

theorem readsAs_natural {bound : Nat} (expected : String) {n : UInt64} (small : n.toNat < bound) :
    ReadsAs (natural bound expected) (.natural n) n.toNat := by
  intro rest ends
  have run := (numberRun_natural n).append ends
  exact numberWith_of_run run (if_pos small) run.solid.1

theorem readsAs_word64 (n : UInt64) : ReadsAs word64 (.natural n) n := by
  have natural : ReadsAs (natural wordBound "u64") (.natural n) n.toNat :=
    readsAs_natural "u64" n.toNat_lt
  have read : ReadsAs word64 (.natural n) (UInt64.ofNat n.toNat) := readsAs_map _ natural
  rwa [UInt64.ofNat_toNat] at read

theorem readsAs_size {n : Nat} (small : n < wordBound) : ReadsAs size (.count n) n := by
  have same : (UInt64.ofNat n).toNat = n := UInt64.toNat_ofNat_of_lt' small
  have read : ReadsAs size (.count n) (UInt64.ofNat n).toNat :=
    readsAs_natural "usize" (UInt64.toNat_lt _)
  rwa [same] at read

def pickCase (cases : List (String × α)) (name : String) : Reader α :=
  match cases.find? fun c => c.1 == name with
  | some c => return c.2
  | none => reject (.unknownVariant name (cases.map (·.1)))

theorem variant_quoted (cases : List (String × α)) (room : Nat) (s : Bytes) :
    variant cases room (0x22 :: s) = (do pickCase cases (← text) : Reader α) s := by
  unfold pickCase
  rfl

/-- The name of a case is read as the case. -/
theorem readsAs_variant {cases : List (String × α)} (room : Nat) {name : String}
    {c : String × α} (known : cases.find? (fun c => c.1 == name) = some c) :
    ReadsAs (variant cases room) (.string name) c.2 := by
  intro rest _
  rw [encode_string, variant_quoted, bind_of_ok (text_quoted name rest), pickCase, known]
  rfl

/-- The entries of a table are read as the members of an object, and the brace after them. -/
theorem entriesFrom_eq (value : Reader α) (bound : Bytes) (first : Bool)
    (read : List (String × α)) :
    entriesFrom (do
        let name ← text
        colon
        return (name, ← value)) bound first read = (do
      let all ← membersFrom (entryStep fun _ => value) bound first read
      advance
      return all.reverse) := by
  induction bound generalizing first read with
  | nil => rfl
  | cons _ bound ih =>
    simp only [entriesFrom, membersFrom, entryStep, bind_assoc, pure_bind, ih]
    congr 1
    funext more
    cases more
    · rfl
    · simp only [bind_assoc, if_true]

theorem readsAs_table {value : Nat → Reader α} {room : Nat} (form : α → Json)
    {entries : List (String × α)} (each : ∀ e ∈ entries, ReadsAs (value room) (form e.2) e.2) :
    ReadsAs (table value (room + 1)) (.object (entries.map fun e => (e.1, form e.2))) entries := by
  intro rest _
  have taken : TakesAll (entryStep fun _ => value room) []
      (entries.map fun e => (e.1, form e.2)) (.ok (entries.reverse ++ [])) :=
    takesAll_entries form each []
  rw [List.append_nil] at taken
  have read := members_written taken rest
  unfold members at read
  rw [encode_object]
  show entriesFrom _ _ true [] _ = _
  rw [entriesFrom_eq, bind_of_ok read, List.reverse_reverse]
  rfl

/-- What becomes of a written object that is read as an open record. -/
theorem openRecord_written {owner : String} {step : Nat → String → σ → Option (Reader σ)}
    {start : σ} {finish : σ → List (String × Json) → Except Document.Mismatch α} {room : Nat}
    {ms : List (String × Json)} {result : Except Problem (σ × List (String × Json))}
    (takes : TakesAll (openStep step room) (start, []) ms result) (rest : Bytes) :
    openRecord owner step start finish (room + 1) (encode (object ms).chars ++ rest) =
      result.bind fun all =>
        ((finish all.1 all.2.reverse).mapError .mismatch).map (·, rest) := by
  have opened : openRecord owner step start finish (room + 1) (encode (object ms).chars ++ rest) =
      (do
        let all ← members (openStep step room) (start, [])
        let a ← lift (finish all.1 all.2.reverse)
        advance
        return a : Reader α) (encode (memberChars ms) ++ 0x7D :: rest) := by
    rw [encode_object]
    rfl
  have read := members_written takes rest
  rw [opened]
  cases result with
  | error p => exact bind_of_error read
  | ok all =>
    rw [bind_of_ok read]
    show _ = ((finish all.1 all.2.reverse).mapError Problem.mismatch).map (·, rest)
    cases finish all.1 all.2.reverse with
    | error m => exact bind_of_error rfl
    | ok a => rfl

section Taken

variable {owner : String} {step : Nat → String → σ → Option (Reader σ)}
  {finish : σ → List (String × Json) → Except Document.Mismatch α} {start state : σ} {room : Nat}
  {name : String} {v : Json} {ms later kept : List (String × Json)}

/-- A field of the record that has not come before is put into the state. -/
theorem takesAt_field {value : Reader β} {put : β → σ} {b : β}
    (knows : step room name state = some (onceStep false name value put))
    (reads : ReadsAs value v b) (kept : List (String × Json)) :
    TakesAt (openStep step room) (state, kept) (name, v) (.ok (put b, kept)) := by
  intro rest ends
  rw [openStep_known knows, onceStep_written, if_neg (by decide), reads rest ends]
  rfl

/-- Members of other names are kept in reverse. -/
theorem takesAll_kept {result : Except Problem (σ × List (String × Json))}
    (others : ∀ m ∈ ms, step room m.1 state = none ∧ WritesBack room m.2)
    (onward : TakesAll (openStep step room) (state, ms.reverse ++ kept) later result) :
    TakesAll (openStep step room) (state, kept) (ms ++ later) result := by
  induction ms generalizing kept with
  | nil => exact onward
  | cons m ms ih =>
    obtain ⟨⟨unknown, writes⟩, others⟩ := List.forall_mem_cons.mp others
    rw [List.reverse_cons, List.append_assoc, List.singleton_append] at onward
    exact .next (fun _ ends => openStep_other unknown writes kept ends) (ih others onward)

/-- A record is read back if all its members are taken and what they come to is the record. -/
theorem readsAs_openRecord {a : α} (takes : TakesAll (openStep step room) (start, []) ms
      (.ok (state, kept))) (made : finish state kept.reverse = .ok a) :
    ReadsAs (openRecord owner step start finish (room + 1)) (.object ms) a := by
  intro rest _
  rw [openRecord_written takes]
  dsimp only [Except.bind]
  rw [made]
  rfl

end Taken

end QueueBench.Json.Reader
