import QueueBench.Proofs.TwoFieldRecords
import QueueBench.Proofs.WrittenDoubles
import QueueBench.Proofs.WrittenValues

set_option autoImplicit false

namespace QueueBench.Json

/-- Whether a double is written as a number. -/
def WrittenAsNumber (x : Float) : Prop := Json.double x = .number (.double x)

theorem writtenAsNumber_iff {x : Float} : WrittenAsNumber x ↔ x.isFinite = true := by
  unfold WrittenAsNumber Json.double
  split
  case isTrue finite => exact iff_of_true rfl finite
  case isFalse infinite => exact iff_of_false nofun infinite

namespace Reader

open Text.Utf8 (encode encode_cons encode_append)

variable {α β γ σ : Type}

theorem encode_newLine (level : Nat) :
    encode (newLine level) = 0x0A :: List.replicate (2 * level) 0x20 := by
  have blanks (n : Nat) : encode (List.replicate n ' ') = List.replicate n 0x20 := by
    induction n with
    | zero => rfl
    | succ n ih =>
      rw [List.replicate_succ, encode_cons, ih]
      rfl
  rw [newLine, encode_cons, blanks]
  rfl

theorem dropSpace_newLine (level : Nat) (s : Bytes) :
    dropSpace (encode (newLine level) ++ s) = dropSpace s := by
  have blank : ∀ b ∈ encode (newLine level), isSpace b := by
    rw [encode_newLine, List.forall_mem_cons]
    refine ⟨rfl, fun b member => ?_⟩
    rw [List.eq_of_mem_replicate member]
    rfl
  exact List.dropWhile_append_of_pos blank

theorem ends_newLine (level : Nat) (s : Bytes) : Ends (encode (newLine level) ++ s) := by
  rw [encode_newLine]
  exact ends_cons ⟨by decide, by simp [IsPoint], by simp [IsMark]⟩ _

/-- What follows an item on its line, and after it. -/
def itemLines (level : Nat) : List Json → List Char
  | [] => []
  | v :: later => ',' :: indentedItems level (v :: later)

/-- What follows a member on its line, and after it. -/
def memberLines (level : Nat) : List (String × Json) → List Char
  | [] => []
  | m :: later => ',' :: indentedMembers level (m :: later)

theorem indentedItems_cons (level : Nat) (v : Json) (later : List Json) :
    indentedItems level (v :: later) =
      newLine level ++ (v.indentedChars level ++ itemLines level later) := by
  cases later with
  | nil => rw [indentedItems, itemLines, List.append_nil]
  | cons w later => rw [indentedItems, itemLines, List.append_assoc]

theorem indentedMembers_cons (level : Nat) (name : String) (v : Json)
    (later : List (String × Json)) :
    indentedMembers level ((name, v) :: later) =
      newLine level ++ (quoted name ++ ':' :: ' ' ::
        (v.indentedChars level ++ memberLines level later)) := by
  cases later with
  | nil => rw [indentedMembers, memberLines, List.append_nil, List.append_assoc]
  | cons m later => rw [indentedMembers, memberLines, List.append_assoc]

theorem ends_itemLines (level : Nat) (vs : List Json) {tail : Bytes} (ends : Ends tail) :
    Ends (encode (itemLines level vs) ++ tail) := by
  cases vs with
  | nil => exact ends
  | cons v later =>
    rw [itemLines, encode_comma]
    exact ends_comma _

theorem ends_memberLines (level : Nat) (ms : List (String × Json)) {tail : Bytes}
    (ends : Ends tail) : Ends (encode (memberLines level ms) ++ tail) := by
  cases ms with
  | nil => exact ends
  | cons m later =>
    rw [memberLines, encode_comma]
    exact ends_comma _

/-- Under a condition the result is a value, and otherwise it is a problem. -/
def Yields (P : Prop) (p : Problem) (result : Except Problem α) (a : α) : Prop :=
  (P → result = .ok a) ∧ (¬ P → result = .error p)

section Yields

variable {P Q : Prop} {p : Problem}

theorem yields_of_ok {result : Except Problem α} {a : α} (read : result = .ok a) :
    Yields True p result a := ⟨fun _ => read, fun fails => absurd trivial fails⟩

theorem yields_bind_ok {x : Reader α} {f : α → Reader β} {s t : Bytes} {a : α} {b : β × Bytes}
    (read : x s = .ok (a, t)) (later : Yields Q p (f a t) b) : Yields Q p ((x >>= f) s) b := by
  rwa [bind_of_ok read]

/-- The condition of a sequence is that both steps have theirs; the first that fails decides. -/
theorem yields_bind {x : Reader α} {f : α → Reader β} {s t : Bytes} {a : α} {b : β × Bytes}
    (first : Yields P p (x s) (a, t)) (later : Yields Q p (f a t) b) :
    Yields (P ∧ Q) p ((x >>= f) s) b := by
  by_cases holds : P
  · rw [bind_of_ok (first.1 holds)]
    exact ⟨fun both => later.1 both.2, fun fails => later.2 fun second => fails ⟨holds, second⟩⟩
  · rw [bind_of_error (first.2 holds)]
    exact ⟨fun both => absurd both.1 holds, fun _ => rfl⟩

theorem yields_onward {x : Reader α} {f : α → Reader β} {s t : Bytes} {a : α} {b : β × Bytes}
    (first : Yields P p (x s) (a, t)) (onward : f a t = .ok b) : Yields P p ((x >>= f) s) b := by
  have both := yields_bind first (yields_of_ok onward)
  rwa [and_true] at both

theorem yields_map {x : Reader α} {f : α → β} {s t : Bytes} {a : α}
    (first : Yields P p (x s) (a, t)) : Yields P p ((do return f (← x) : Reader β) s) (f a, t) :=
  yields_onward first rfl

end Yields

/-- What a reader makes of the indented form of a value, at every level, behind blanks and before
whatever ends it. -/
structure ReadsIf (P : Prop) (p : Problem) (reader : Reader α) (v : Json) (a : α) : Prop where
  opens : ∀ level, ∃ b s, encode (v.indentedChars level) = b :: s ∧ isSpace b = false ∧ b ≠ 0x5D
  reads : ∀ level s rest, Ends rest → dropSpace s = encode (v.indentedChars level) ++ rest →
    Yields P p (reader s) (a, rest)

namespace ReadsIf

variable {P Q : Prop} {p : Problem} {reader : Reader α} {v : Json} {a : α}

theorem of_iff (readsIf : ReadsIf P p reader v a) (same : P ↔ Q) : ReadsIf Q p reader v a :=
  propext same ▸ readsIf

theorem bind (readsIf : ReadsIf P p reader v a) {onward : α → Reader β} {b : β}
    (returns : ∀ s, onward a s = .ok (b, s)) : ReadsIf P p (reader >>= onward) v b := by
  refine ⟨readsIf.opens, fun level s rest ends form => ?_⟩
  exact yields_onward (readsIf.reads level s rest ends form) (returns rest)

theorem starts (readsIf : ReadsIf P p reader v a) (level : Nat) (rest : Bytes) :
    dropSpace (encode (v.indentedChars level) ++ rest) =
      encode (v.indentedChars level) ++ rest := by
  obtain ⟨b, s, form, solid, -⟩ := readsIf.opens level
  rw [form]
  exact dropSpace_cons solid _

theorem reads_here (readsIf : ReadsIf P p reader v a) (level : Nat) {rest : Bytes}
    (ends : Ends rest) :
    Yields P p (reader (encode (v.indentedChars level) ++ rest)) (a, rest) :=
  readsIf.reads level _ rest ends (readsIf.starts level rest)

theorem another_later (readsIf : ReadsIf P p reader v a) (level : Nat) (rest : Bytes) :
    anotherItem false
        (0x2C :: (encode (newLine level) ++ (encode (v.indentedChars level) ++ rest))) =
      .ok (true, encode (v.indentedChars level) ++ rest) := by
  have front := readsIf.starts level rest
  obtain ⟨b, t, form, -, open'⟩ := readsIf.opens level
  rw [← dropSpace_newLine level] at front
  rw [form] at front ⊢
  exact anotherItem_later.mpr ⟨_, b, _, dropSpace_cons (by decide) _, front, open', rfl⟩

theorem another_first (readsIf : ReadsIf P p reader v a) (level : Nat) (rest : Bytes) :
    anotherItem true (encode (newLine level) ++ (encode (v.indentedChars level) ++ rest)) =
      .ok (true, encode (v.indentedChars level) ++ rest) := by
  have front := readsIf.starts level rest
  obtain ⟨b, t, form, -, open'⟩ := readsIf.opens level
  rw [← dropSpace_newLine level] at front
  rw [form] at front ⊢
  exact anotherItem_first.mpr ⟨b, _, front, open', rfl⟩

end ReadsIf

section Numbers

variable {expected : String} {check : Number → Except Document.Mismatch α} {m n : Number} {a : α}
  {p : Problem}

theorem readsIf_number (run : NumberRun (encode n.text) m []) (accepts : check m = .ok a) :
    ReadsIf True p (numberWith expected check) (.number n) a := by
  refine ⟨fun level => ?_, fun level s rest ends form => ?_⟩
  · rw [indentedChars]
    exact run.opens
  · rw [indentedChars, chars] at form
    exact yields_of_ok (numberWith_of_run (run.append ends) accepts form)

theorem readsIf_natural {bound : Nat} {n : UInt64} (small : n.toNat < bound) :
    ReadsIf True p (natural bound expected) (.natural n) n.toNat :=
  readsIf_number (numberRun_natural n) (if_pos small)

theorem readsIf_word64 (n : UInt64) : ReadsIf True p word64 (.natural n) n :=
  (readsIf_natural n.toNat_lt).bind fun s => by
    rw [UInt64.ofNat_toNat]
    rfl

theorem readsIf_word32 (n : UInt32) : ReadsIf True p word32 (.natural n.toUInt64) n := by
  have small : n.toUInt64.toNat < halfWordBound := n.toNat_lt
  refine (readsIf_natural small).bind fun s => ?_
  rw [UInt32.toNat_toUInt64, UInt32.ofNat_toNat]
  rfl

def nullForDouble : Problem := .mismatch (.wrongType .null "f64")

/-- A double is read as what its text is read as, unless that is a null. -/
theorem readsIf_double {x : Float} (moderate : Double.Moderate x) :
    ReadsIf (WrittenAsNumber x) nullForDouble double (.double x) (reread x) := by
  by_cases finite : x.isFinite = true
  · have number : ReadsIf True nullForDouble double (.number (.double x)) (reread x) :=
      readsIf_number (numberRun_reread moderate finite) rfl
    have written := writtenAsNumber_iff.mpr finite
    rw [show Json.double x = .number (.double x) from written]
    exact number.of_iff (iff_of_true trivial written)
  · have null : Json.double x = .null := if_neg finite
    rw [null]
    refine ⟨fun level => ⟨0x6E, _, rfl, by decide, by decide⟩, fun level s rest _ form =>
      ⟨fun written => absurd (writtenAsNumber_iff.mp written) finite, fun _ => ?_⟩⟩
    have word : dropSpace s = 0x6E :: 0x75 :: 0x6C :: 0x6C :: rest := form
    unfold double numberWith
    rw [word]
    rfl

end Numbers

section Lists

variable {item : Reader α}

theorem itemsFrom_closed {bound s rest : Bytes} (closed : dropSpace s = 0x5D :: rest)
    (enough : s.length ≤ bound.length) (first : Bool) (read : List α) :
    itemsFrom item bound first read s = .ok (read.reverse, 0x5D :: rest) := by
  have short := length_of_dropSpace closed
  cases bound with
  | nil => exact absurd enough (Nat.not_le_of_lt (Nat.zero_lt_of_lt short))
  | cons _ bound => exact bind_of_ok (anotherItem_false.mpr ⟨rest, closed, rfl⟩)

variable {P : γ → Prop} {p : Problem} {form : γ → Json} {value : γ → α} {as : List γ}

/-- One round of the loop, from before an item to behind it. -/
theorem itemsFrom_next {Q : Prop} {a : γ} (own : ReadsIf (P a) p item (form a) (value a)) {level : Nat}
    {s after : Bytes} {first : Bool} (another : anotherItem first s =
      .ok (true, encode ((form a).indentedChars level) ++ after)) (ends : Ends after)
    (b : UInt8) {bound : Bytes} {read : List α} {result : List α × Bytes}
    (onward : Yields Q p (itemsFrom item bound false (value a :: read) after) result) :
    Yields (P a ∧ Q) p (itemsFrom item (b :: bound) first read s) result := by
  rw [itemsFrom]
  refine yields_bind_ok another ?_
  rw [if_pos rfl]
  exact yields_bind (own.reads_here level ends) onward

variable (each : ∀ a ∈ as, ReadsIf (P a) p item (form a) (value a))
include each

/-- The rest of a list, from behind an item. -/
theorem itemsFrom_lines (level : Nat) {bound tail rest : Bytes} (ends : Ends tail)
    (closed : dropSpace tail = 0x5D :: rest)
    (enough : (encode (itemLines level (as.map form)) ++ tail).length ≤ bound.length)
    (read : List α) : Yields (∀ a ∈ as, P a) p
      (itemsFrom item bound false read (encode (itemLines level (as.map form)) ++ tail))
      (read.reverse ++ as.map value, 0x5D :: rest) := by
  induction as generalizing bound read with
  | nil =>
    simp only [List.map_nil, List.append_nil]
    exact ⟨fun _ => itemsFrom_closed closed enough false read, fun fails => absurd nofun fails⟩
  | cons a as ih =>
    obtain ⟨own, later⟩ := List.forall_mem_cons.mp each
    have bytes : encode (itemLines level ((a :: as).map form)) ++ tail =
        0x2C :: (encode (newLine level) ++ (encode ((form a).indentedChars level) ++
          (encode (itemLines level (as.map form)) ++ tail))) := by
      rw [List.map_cons, itemLines, encode_comma, indentedItems_cons, encode_append, encode_append]
      simp only [List.cons_append, List.append_assoc]
    rw [bytes] at enough ⊢
    cases bound with
    | nil => cases enough
    | cons b bound =>
      have short : (encode (itemLines level (as.map form)) ++ tail).length ≤ bound.length := by
        simp only [List.length_cons, List.length_append] at enough ⊢
        omega
      have onward := ih later short (value a :: read)
      rw [List.reverse_cons, List.append_assoc, List.singleton_append] at onward
      rw [List.forall_mem_cons, List.map_cons (f := value)]
      exact itemsFrom_next own (own.another_later level _) (ends_itemLines level _ ends) b onward

/-- The indented form of a list, behind its bracket. -/
theorem items_lines (level : Nat) (rest : Bytes) :
    ∃ body, encode ((array (as.map form)).indentedChars level) ++ rest = 0x5B :: body ∧
      Yields (∀ a ∈ as, P a) p (items item body) (as.map value, rest) := by
  have finish {body : Bytes} (all : Yields (∀ a ∈ as, P a) p (itemsFrom item body true [] body)
      (as.map value, 0x5D :: rest)) :
      Yields (∀ a ∈ as, P a) p (items item body) (as.map value, rest) :=
    @yields_onward _ _ _ _ (fun s => itemsFrom item s true [] s) _ _ _ _ _ all rfl
  cases as with
  | nil =>
    refine ⟨0x5D :: rest, rfl, finish ⟨fun _ => ?_, fun fails => absurd nofun fails⟩⟩
    exact itemsFrom_closed (dropSpace_cons (by decide) rest) (Nat.le_refl _) true []
  | cons a as =>
    obtain ⟨own, later⟩ := List.forall_mem_cons.mp each
    have closed : dropSpace (encode (newLine level) ++ 0x5D :: rest) = 0x5D :: rest := by
      rw [dropSpace_newLine, dropSpace_cons (by decide)]
    have ends := ends_newLine level (0x5D :: rest)
    have another := own.another_first (level + 1)
      (encode (itemLines (level + 1) (as.map form)) ++ (encode (newLine level) ++ 0x5D :: rest))
    refine ⟨encode (newLine (level + 1)) ++ (encode ((form a).indentedChars (level + 1)) ++
      (encode (itemLines (level + 1) (as.map form)) ++ (encode (newLine level) ++ 0x5D :: rest))),
      ?_, finish ?_⟩
    · rw [List.map_cons, indentedChars, indentedItems_cons, encode_cons]
      simp only [encode_append, List.append_assoc]
      rfl
    · rw [encode_newLine, List.cons_append] at another ⊢
      rw [List.forall_mem_cons]
      refine itemsFrom_next own another (ends_itemLines _ _ ends) _
        (itemsFrom_lines later (level + 1) ends closed ?_ [value a])
      simp only [List.length_append]
      omega

omit each in
theorem readsIf_list {item : Nat → Reader α} {room : Nat}
    (each : ∀ a ∈ as, ReadsIf (P a) p (item room) (form a) (value a)) :
    ReadsIf (∀ a ∈ as, P a) p (list item (room + 1)) (.array (as.map form)) (as.map value) := by
  refine ⟨fun level => ?_, fun level s rest _ bytes => ?_⟩
  · obtain ⟨body, opened, -⟩ := items_lines each level []
    rw [List.append_nil] at opened
    exact ⟨_, body, opened, by decide, by decide⟩
  · obtain ⟨body, opened, read⟩ := items_lines each level rest
    rw [opened] at bytes
    unfold list opening
    rw [bytes]
    exact read

end Lists

/-- How the members of an object are read in rounds, each from behind the quote before a name to
behind the value, up to behind the closing brace. -/
inductive RoundsRun (round : σ → Reader σ) (p : Problem) :
    Prop → Bool → σ → Bytes → σ → Bytes → Prop where
  | done {first : Bool} {state : σ} {s t : Bytes} (closed : dropSpace s = 0x7D :: t) :
      RoundsRun round p True first state s state t
  | next {P Q : Prop} {first : Bool} {state state' final : σ} {s t u rest : Bytes}
      (another : anotherMember first s = .ok (true, t))
      (read : Yields P p (round state t) (state', u)) (used : u.length ≤ t.length)
      (run : RoundsRun round p Q false state' u final rest) :
      RoundsRun round p (P ∧ Q) first state s final rest

section Loops

variable {P : Prop} {p : Problem} {first : Bool} {s rest bound : Bytes}

theorem membersFrom_of_rounds {step : String → σ → Reader σ} {state final : σ}
    (run : RoundsRun (fun state => do step (← text) state) p P first state s final rest)
    (enough : s.length ≤ bound.length) :
    Yields P p (membersFrom step bound first state s) (final, 0x7D :: rest) := by
  induction run generalizing bound with
  | done closed =>
    have short := length_of_dropSpace closed
    cases bound with
    | nil => exact absurd enough (Nat.not_le_of_lt (Nat.zero_lt_of_lt short))
    | cons _ bound =>
      exact yields_of_ok (bind_of_ok (anotherMember_false.mpr ⟨_, closed, rfl⟩))
  | next another read used _ ih =>
    have left := length_anotherMember another
    cases bound with
    | nil => exact absurd enough (Nat.not_le_of_lt (Nat.zero_lt_of_lt left))
    | cons _ bound =>
      rw [membersFrom]
      refine yields_bind_ok another ?_
      rw [if_pos rfl, ← bind_assoc]
      refine yields_bind read (ih ?_)
      rw [List.length_cons] at enough
      omega

theorem bind_cons (entry : Reader α) (read : List α) (onward : List α → Reader β) :
    (do onward ((← entry) :: read)) =
      (do return (← entry) :: read : Reader (List α)) >>= onward := by
  simp only [bind_assoc, pure_bind]

theorem entriesFrom_of_rounds {entry : Reader α} {read final : List α}
    (run : RoundsRun (fun read => do return (← entry) :: read) p P first read s final rest)
    (enough : s.length ≤ bound.length) :
    Yields P p (entriesFrom entry bound first read s) (final.reverse, rest) := by
  induction run generalizing bound with
  | done closed =>
    have short := length_of_dropSpace closed
    cases bound with
    | nil => exact absurd enough (Nat.not_le_of_lt (Nat.zero_lt_of_lt short))
    | cons _ bound =>
      exact yields_of_ok (bind_of_ok (anotherMember_false.mpr ⟨_, closed, rfl⟩))
  | next another read used _ ih =>
    have left := length_anotherMember another
    cases bound with
    | nil => exact absurd enough (Nat.not_le_of_lt (Nat.zero_lt_of_lt left))
    | cons _ bound =>
      rw [entriesFrom]
      refine yields_bind_ok another ?_
      rw [if_pos rfl, bind_cons]
      refine yields_bind read (ih ?_)
      rw [List.length_cons] at enough
      omega

end Loops

/-- What a round makes of a member in its indented form. -/
def TakesIf (P : Prop) (p : Problem) (round : σ → Reader σ) (m : String × Json)
    (before after : σ) : Prop :=
  ∀ level rest, Ends rest →
    Yields P p (round before (encode (m.1.toList.flatMap escaped) ++
      0x22 :: 0x3A :: 0x20 :: (encode (m.2.indentedChars level) ++ rest))) (after, rest)

/-- What rounds make of the members of an object, one after the other. -/
inductive TakesAllIf (p : Problem) (round : σ → Reader σ) :
    Prop → σ → List (String × Json) → σ → Prop where
  | nil {state : σ} : TakesAllIf p round True state [] state
  | cons {P Q : Prop} {m : String × Json} {ms : List (String × Json)} {before mid after : σ}
      (first : TakesIf P p round m before mid) (later : TakesAllIf p round Q mid ms after) :
      TakesAllIf p round (P ∧ Q) before (m :: ms) after

section Members

variable {P : Prop} {p : Problem} {round : σ → Reader σ} {ms : List (String × Json)}
  {before after : σ}

/-- The bytes of a member behind the quote before its name. -/
theorem encode_memberLine (level : Nat) (name : String) (v : Json) (later : List (String × Json))
    (rest : Bytes) :
    encode (indentedMembers level ((name, v) :: later)) ++ rest =
      encode (newLine level) ++ 0x22 :: (encode (name.toList.flatMap escaped) ++
        0x22 :: 0x3A :: 0x20 :: (encode (v.indentedChars level) ++
          (encode (memberLines level later) ++ rest))) := by
  have space (cs : List Char) : encode (' ' :: cs) = 0x20 :: encode cs := by
    rw [encode_cons]
    rfl
  rw [indentedMembers_cons, encode_append, encode_append, encode_quoted, encode_colon, space,
    encode_append]
  simp only [List.cons_append, List.append_assoc, List.nil_append]

theorem rounds_memberLines (takes : TakesAllIf p round P before ms after) (level : Nat)
    {tail rest : Bytes} (ends : Ends tail) (closed : dropSpace tail = 0x7D :: rest) :
    RoundsRun round p P false before (encode (memberLines level ms) ++ tail) after rest := by
  induction takes with
  | nil => exact .done closed
  | @cons _ _ m ms _ _ _ first _ ih =>
    obtain ⟨name, v⟩ := m
    rw [memberLines, encode_comma, List.cons_append, encode_memberLine]
    refine .next (anotherMember_later.mpr ⟨_, dropSpace_cons (by decide) _, ?_⟩)
      (first level _ (ends_memberLines level ms ends)) ?_ ih
    · rw [dropSpace_newLine]
      exact dropSpace_cons (by decide) _
    · simp only [List.length_append, List.length_cons]
      omega

/-- The indented form of an object, behind its brace. -/
theorem rounds_members (takes : TakesAllIf p round P before ms after) (level : Nat) (rest : Bytes) :
    ∃ body, encode ((object ms).indentedChars level) ++ rest = 0x7B :: body ∧
      RoundsRun round p P true before body after rest := by
  cases takes with
  | nil => exact ⟨0x7D :: rest, rfl, .done (dropSpace_cons (by decide) rest)⟩
  | @cons _ _ m ms _ _ _ first later =>
    obtain ⟨name, v⟩ := m
    have closed : dropSpace (encode (newLine level) ++ 0x7D :: rest) = 0x7D :: rest := by
      rw [dropSpace_newLine, dropSpace_cons (by decide)]
    have ends := ends_newLine level (0x7D :: rest)
    refine ⟨encode (indentedMembers (level + 1) ((name, v) :: ms)) ++
      (encode (newLine level) ++ 0x7D :: rest), ?_, ?_⟩
    · rw [indentedChars, encode_cons]
      simp only [encode_append, List.append_assoc]
      rfl
    · rw [encode_memberLine]
      refine .next (anotherMember_first.mpr ?_)
        (first (level + 1) _ (ends_memberLines _ ms ends)) ?_
        (rounds_memberLines later (level + 1) ends closed)
      · rw [dropSpace_newLine]
        exact dropSpace_cons (by decide) _
      · simp only [List.length_append, List.length_cons]
        omega

/-- An object is read as its members are. -/
theorem readsIf_object {expected : String} {list : Option (Nat → Reader α)}
    {object : Nat → Reader α} {room : Nat} {a : α} (takes : TakesAllIf p round P before ms after)
    (reads : ∀ body rest, RoundsRun round p P true before body after rest →
      Yields P p (object room body) (a, rest)) :
    ReadsIf P p (opening expected list (some object) (room + 1)) (.object ms) a := by
  refine ⟨fun level => ?_, fun level s rest _ bytes => ?_⟩
  · obtain ⟨body, opened, -⟩ := rounds_members takes level []
    rw [List.append_nil] at opened
    exact ⟨_, body, opened, by decide, by decide⟩
  · obtain ⟨body, opened, run⟩ := rounds_members takes level rest
    have read := reads body rest run
    rw [opened] at bytes
    unfold opening
    rw [bytes]
    exact read

end Members

section Records

variable {P Q R : Prop} {p : Problem} {room : Nat} {a : Field α} {b : Field β} {c : Field γ}
  {u v w : Json} {x : α} {y : β} {z : γ}

theorem dropSpace_space (s : Bytes) : dropSpace (0x20 :: s) = dropSpace s := rfl

theorem yields_next (readsIf : ReadsIf P p (a.value room) v x) (level : Nat) {rest : Bytes}
    (ends : Ends rest) :
    Yields P p (a.next room none (0x3A :: 0x20 :: (encode (v.indentedChars level) ++ rest)))
      (x, rest) := by
  unfold Field.next
  rw [if_neg (by simp)]
  refine yields_bind_ok (colon_eq_ok.mpr (dropSpace_cons (by decide) _)) ?_
  refine readsIf.reads level _ rest ends ?_
  rw [dropSpace_space, readsIf.starts]

/-- A step that knows a field takes its member. -/
theorem takesIf_field {step : String → σ → Reader σ} {before : σ} (put : α → σ)
    (knows : step a.name before = do return put (← a.next room none))
    (readsIf : ReadsIf P p (a.value room) v x) :
    TakesIf P p (fun state => do step (← text) state) (a.name, v) before (put x) := by
  intro level rest ends
  refine yields_bind_ok (text_quoted a.name _) ?_
  rw [knows]
  exact yields_map (yields_next readsIf level ends)

theorem readsIf_record2 {owner : String} (apart : b.name ≠ a.name)
    (first : ReadsIf P p (a.value room) v x) (second : ReadsIf Q p (b.value room) w y) :
    ReadsIf (P ∧ Q) p (record2 owner a b (room + 1)) (.object [(a.name, v), (b.name, w)])
      (x, y) := by
  have takes : TakesAllIf p (fun state => do pairStep a b room (← text) state) (P ∧ Q ∧ True)
      (none, none) [(a.name, v), (b.name, w)] (some x, some y) := by
    refine .cons (takesIf_field (fun x => (some x, none)) ?_ first)
      (.cons (takesIf_field (fun y => (some x, some y)) ?_ second) .nil)
    · funext s
      unfold pairStep
      rw [if_pos rfl]
    · funext s
      unfold pairStep
      rw [if_neg apart, if_pos rfl]
  rw [and_true] at takes
  refine readsIf_object takes fun body rest run => ?_
  have read : Yields (P ∧ Q) p (members (pairStep a b room) (none, none) body)
    ((some x, some y), 0x7D :: rest) := membersFrom_of_rounds run (Nat.le_refl _)
  exact yields_onward read rfl

def tripleStep (a : Field α) (b : Field β) (c : Field γ) (room : Nat) (name : String)
    (state : Option α × Option β × Option γ) : Reader (Option α × Option β × Option γ) := do
  if name = a.name then return (some (← a.next room state.1), state.2.1, state.2.2)
  else if name = b.name then return (state.1, some (← b.next room state.2.1), state.2.2)
  else if name = c.name then return (state.1, state.2.1, some (← c.next room state.2.2))
  else
    colon
    skip
    return state

theorem readsIf_record3 {owner : String} (apart : b.name ≠ a.name) (apart' : c.name ≠ a.name)
    (apart'' : c.name ≠ b.name) (first : ReadsIf P p (a.value room) u x)
    (second : ReadsIf Q p (b.value room) v y) (third : ReadsIf R p (c.value room) w z) :
    ReadsIf (P ∧ Q ∧ R) p (record3 owner a b c (room + 1))
      (.object [(a.name, u), (b.name, v), (c.name, w)]) (x, y, z) := by
  have takes : TakesAllIf p (fun state => do tripleStep a b c room (← text) state)
      (P ∧ Q ∧ R ∧ True) (none, none, none) [(a.name, u), (b.name, v), (c.name, w)]
      (some x, some y, some z) := by
    refine .cons (takesIf_field (fun x => (some x, none, none)) ?_ first)
      (.cons (takesIf_field (fun y => (some x, some y, none)) ?_ second)
        (.cons (takesIf_field (fun z => (some x, some y, some z)) ?_ third)
          .nil))
    · funext s
      unfold tripleStep
      rw [if_pos rfl]
    · funext s
      unfold tripleStep
      rw [if_neg apart, if_pos rfl]
    · funext s
      unfold tripleStep
      rw [if_neg apart', if_neg apart'', if_pos rfl]
  rw [and_true] at takes
  refine readsIf_object takes fun body rest run => ?_
  have read : Yields (P ∧ Q ∧ R) p (members (tripleStep a b c room) (none, none, none) body)
    ((some x, some y, some z), 0x7D :: rest) := membersFrom_of_rounds run (Nat.le_refl _)
  exact yields_onward read rfl

end Records

section Tables

theorem flatMap_escaped_digits (n : Nat) :
    (Decimal.digits n).flatMap escaped = Decimal.digits n := by
  have plain : ∀ c ∈ Decimal.digits n, escaped c = [c] := by
    intro c member
    have size := toNat_of_isDigit (Decimal.isDigit_of_mem_digits member)
    unfold escaped
    rw [if_neg, if_neg, if_neg, if_neg, if_neg, if_neg, if_neg, if_neg]
    all_goals first
      | omega
      | (rintro rfl; revert size; decide)
  rw [List.flatMap_congr plain, List.flatMap_singleton']

/-- A numeral as a name is read as its number. -/
theorem naturalName_digits {bound : Nat} {expected : String} {n : Nat} (small : n < bound)
    (word : n < wordBound) (rest : Bytes) :
    naturalName bound expected (encode (Decimal.digits n) ++ 0x22 :: rest) = .ok (n, rest) := by
  obtain ⟨n, rfl⟩ : ∃ m : UInt64, n = m.toNat :=
    ⟨UInt64.ofNat n, (UInt64.toNat_ofNat_of_lt' word).symm⟩
  have digits : ∀ c ∈ Decimal.digits n.toNat, c.isDigit := fun _ => Decimal.isDigit_of_mem_digits
  have ends : Ends (0x22 :: rest) := ends_cons ⟨by decide, by simp [IsPoint], by simp [IsMark]⟩ rest
  have run := (numberRun_natural n).append ends
  have read : natural bound expected (encode (Decimal.digits n.toNat) ++ 0x22 :: rest) =
      .ok (n.toNat, 0x22 :: rest) := numberWith_of_run run (if_pos small) run.solid.1
  cases front : encode (Decimal.digits n.toNat) with
  | nil => exact absurd front (encode_digits_ne_nil digits (Decimal.digits_ne_nil _))
  | cons b s =>
    have digit : isDigit b := isDigit_of_mem_encode digits (front ▸ List.mem_cons_self)
    rw [front] at read
    rw [List.cons_append] at read ⊢
    unfold naturalName
    dsimp only
    rw [if_pos (.inl digit), bind_of_ok read]
    rfl

/-- An object that names its values by numerals is read as the values with their numbers. -/
theorem readsIf_numberTable {κ : Type} {bound : Nat} {expected : String} {value : Nat → Reader α}
    {room : Nat} {P : γ → Prop} {p : Problem} (number : κ → Nat) (form : γ → Json)
    (result : γ → α) {entries : List (κ × γ)} (below : bound ≤ wordBound)
    (each : ∀ e ∈ entries, number e.1 < bound ∧
      ReadsIf (P e.2) p (value room) (form e.2) (result e.2)) :
    ReadsIf (∀ e ∈ entries, P e.2) p (numberTable bound expected value (room + 1))
      (.object (entries.map fun e => (String.ofList (Decimal.digits (number e.1)), form e.2)))
      (entries.map fun e => (number e.1, result e.2)) := by
  have takes (read : List (Nat × α)) : TakesAllIf p (fun read => do
      return (← (do
        let name ← naturalName bound expected
        colon
        return (name, ← value room) : Reader (Nat × α))) :: read) (∀ e ∈ entries, P e.2) read
      (entries.map fun e => (String.ofList (Decimal.digits (number e.1)), form e.2))
      ((entries.map fun e => (number e.1, result e.2)).reverse ++ read) := by
    induction entries generalizing read with
    | nil =>
      have always : (∀ e ∈ ([] : List (κ × γ)), P e.2) = True := by simp
      rw [always]
      exact .nil
    | cons e entries ih =>
      obtain ⟨⟨small, own⟩, later⟩ := List.forall_mem_cons.mp each
      rw [List.map_cons, List.map_cons, List.reverse_cons, List.append_assoc,
        List.singleton_append, List.forall_mem_cons]
      refine .cons (fun level rest ends => yields_map ?_) (ih later _)
      rw [String.toList_ofList, flatMap_escaped_digits]
      refine yields_bind_ok (naturalName_digits small (Nat.lt_of_lt_of_le small below) _) ?_
      refine yields_bind_ok (colon_eq_ok.mpr (dropSpace_cons (by decide) _)) ?_
      refine yields_map (own.reads level _ rest ends ?_)
      rw [dropSpace_space, own.starts]
  refine readsIf_object (takes []) fun body rest run => ?_
  have read := entriesFrom_of_rounds run (Nat.le_refl _)
  rwa [List.append_nil, List.reverse_reverse] at read

end Tables

end Reader

end QueueBench.Json
