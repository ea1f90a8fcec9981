import QueueBench.Proofs.NormalForms
import QueueBench.Proofs.WrittenNumbers
import QueueBench.Proofs.WrittenTexts

set_option autoImplicit false

namespace QueueBench.Json

open Reader
open Text.Utf8 (encode encode_cons encode_append)

mutual

/-- The doubles among the numbers of a value. -/
def doubles : Json → List Float
  | number (.double x) => [x]
  | array items => doublesOfItems items
  | object members => doublesOfMembers members
  | _ => []

def doublesOfItems : List Json → List Float
  | [] => []
  | v :: rest => doubles v ++ doublesOfItems rest

def doublesOfMembers : List (String × Json) → List Float
  | [] => []
  | (_, v) :: rest => doubles v ++ doublesOfMembers rest

end

theorem mem_doubles_array {items : List Json} {x : Float} :
    x ∈ (array items).doubles ↔ ∃ v ∈ items, x ∈ v.doubles := by
  rw [doubles]
  induction items with
  | nil => simp [doublesOfItems]
  | cons v later ih => simp [doublesOfItems, ih]

theorem mem_doubles_object {members : List (String × Json)} {x : Float} :
    x ∈ (object members).doubles ↔ ∃ m ∈ members, x ∈ m.2.doubles := by
  rw [doubles]
  induction members with
  | nil => simp [doublesOfMembers]
  | cons m later ih => simp [doublesOfMembers, ih]

/-- Whether some text might be a value within which `room` containers nest. -/
inductive Readable : Nat → Json → Prop where
  | null {room : Nat} : Readable room .null
  | boolean {room : Nat} (b : Bool) : Readable room (.boolean b)
  | natural {room : Nat} (n : UInt64) : Readable room (.number (.natural n))
  | negative {room : Nat} {i : Int64} (negative : i < 0) : Readable room (.number (.negative i))
  | double {room : Nat} (x : Float) : Readable room (.number (.double x))
  | string {room : Nat} (s : String) : Readable room (.string s)
  | array {room : Nat} {items : List Json} (inner : ∀ v ∈ items, Readable room v) :
      Readable (room + 1) (.array items)
  | object {room : Nat} {members : List (String × Json)}
      (inner : ∀ m ∈ members, Readable room m.2) : Readable (room + 1) (.object members)

theorem negative_of_assemble {minus : Bool} {ds : Bytes} {fraction : Option Bytes}
    {power : Option Int} {i : Int64} (made : .negative i = assemble minus ds fraction power) :
    i < 0 := by
  unfold assemble at made
  split at made
  case h_2 => cases made
  case h_1 =>
    unfold integerNumber at made
    dsimp only at made
    split at made
    case h_1 => cases made
    case h_2 n _ =>
      split at made
      case isFalse => cases made
      case isTrue =>
        split at made
        case isFalse => cases made
        case isTrue size =>
          have bound : Word.bound 63 = 2 ^ 63 := rfl
          rw [Number.negative.injEq] at made
          rw [made, Int64.lt_iff_toInt_lt, Int64.toInt_ofInt_of_le (by omega) (by omega)]
          exact Int.neg_neg_of_pos (Int.natCast_pos.mpr size.1)

theorem readable_number {room : Nat} {minus : Bool} {s t : Bytes} {n : Number}
    (read : Reader.number minus s = .ok (n, t)) : Readable room (.number n) := by
  obtain ⟨ds, u, fraction, v, power, -, -, -, made, -⟩ := number_eq_ok.mp read
  cases n with
  | natural n => exact .natural n
  | negative i => exact .negative (negative_of_assemble made)
  | double x => exact .double x

theorem readable_of_value {room : Nat} : ∀ s v t, value room s = .ok (v, t) → Readable room v :=
  @value_induction Readable (fun _ => .null) (fun _ => .boolean) (fun _ _ _ _ _ => readable_number)
    (fun _ => .string) (fun _ _ => .array) (fun _ _ => .object) _

/-- Normal forms nest no deeper. -/
theorem Readable.normal {room : Nat} {v : Json} (readable : Readable room v) :
    Readable room v.normal := by
  induction readable with
  | null => exact .null
  | boolean b => exact .boolean b
  | natural n => exact .natural n
  | negative negative => exact .negative negative
  | double x => exact .double x
  | string s => exact .string s
  | array _ ih =>
    rw [normal_array]
    refine .array fun w member => ?_
    obtain ⟨v, inside, rfl⟩ := List.mem_map.mp member
    exact ih v inside
  | object _ ih =>
    rw [normal_object]
    refine .object fun m member => ?_
    obtain ⟨v, inside, same⟩ := mem_tableOf member
    rw [same]
    exact ih _ inside

def moreItems : List Json → List Char
  | [] => []
  | v :: later => ',' :: itemChars (v :: later)

def moreMembers : List (String × Json) → List Char
  | [] => []
  | m :: later => ',' :: memberChars (m :: later)

theorem itemChars_cons (v : Json) (later : List Json) :
    itemChars (v :: later) = v.chars ++ moreItems later := by
  cases later with
  | nil => rw [itemChars, moreItems, List.append_nil]
  | cons w later => rw [itemChars, moreItems]

theorem memberChars_cons (name : String) (v : Json) (later : List (String × Json)) :
    memberChars ((name, v) :: later) = quoted name ++ ':' :: (v.chars ++ moreMembers later) := by
  cases later with
  | nil => rw [memberChars, moreMembers, List.append_nil]
  | cons w later => rw [memberChars, moreMembers]

/-- What a reader makes of the written form of a value, whatever ends it. -/
def ReadsAs {α : Type} (reader : Reader α) (v : Json) (a : α) : Prop :=
  ∀ rest, Ends rest → reader (encode v.chars ++ rest) = .ok (a, rest)

/-- A value is read back from its written form, whatever ends it, and its written form begins with a
byte that opens a value. -/
structure WritesBack (room : Nat) (v : Json) : Prop where
  opens : ∃ b s, encode v.chars = b :: s ∧ isSpace b = false ∧ b ≠ 0x5D
  reads : ∀ rest, Ends rest → value room (encode v.chars ++ rest) = .ok (v, rest)

theorem ends_comma (rest : Bytes) : Ends (0x2C :: rest) :=
  ends_cons ⟨by decide, by simp [IsPoint], by simp [IsMark]⟩ rest

theorem ends_bracket (rest : Bytes) : Ends (0x5D :: rest) :=
  ends_cons ⟨by decide, by simp [IsPoint], by simp [IsMark]⟩ rest

theorem ends_brace (rest : Bytes) : Ends (0x7D :: rest) :=
  ends_cons ⟨by decide, by simp [IsPoint], by simp [IsMark]⟩ rest

theorem encode_comma (cs : List Char) : encode (',' :: cs) = 0x2C :: encode cs := by
  rw [encode_cons]
  rfl

theorem encode_colon (cs : List Char) : encode (':' :: cs) = 0x3A :: encode cs := by
  rw [encode_cons]
  rfl

theorem ends_moreItems (items : List Json) (rest : Bytes) :
    Ends (encode (moreItems items) ++ 0x5D :: rest) := by
  cases items with
  | nil => exact ends_bracket rest
  | cons v later =>
    rw [moreItems, encode_comma]
    exact ends_comma _

theorem ends_moreMembers (members : List (String × Json)) (rest : Bytes) :
    Ends (encode (moreMembers members) ++ 0x7D :: rest) := by
  cases members with
  | nil => exact ends_brace rest
  | cons m later =>
    rw [moreMembers, encode_comma]
    exact ends_comma _

section Items

variable {room : Nat}

theorem item_written {v : Json} {items : List Json} {rest : Bytes} (writes : WritesBack room v)
    {first : Bool} {s : Bytes}
    (another : ∀ b t, encode v.chars = b :: t → isSpace b = false → b ≠ 0x5D →
      anotherItem first s = .ok (true, b :: (t ++ (encode (moreItems items) ++ 0x5D :: rest))))
    (run : ItemsRun (value room) false (encode (moreItems items) ++ 0x5D :: rest) items rest) :
    ItemsRun (value room) first s (v :: items) rest := by
  obtain ⟨b, t, bytes, solid, open'⟩ := writes.opens
  have read := writes.reads _ (ends_moreItems items rest)
  rw [bytes] at read
  exact .next (another b t bytes solid open') read run

theorem moreItems_written {items : List Json} (inner : ∀ v ∈ items, WritesBack room v)
    (rest : Bytes) :
    ItemsRun (value room) false (encode (moreItems items) ++ 0x5D :: rest) items rest := by
  induction items with
  | nil => exact .done (dropSpace_cons (by decide) rest)
  | cons v later ih =>
    have run := ih fun w member => inner w (List.mem_cons_of_mem v member)
    refine item_written (inner v List.mem_cons_self) (fun b t bytes solid open' => ?_) run
    rw [moreItems, encode_comma, itemChars_cons, encode_append, bytes, List.cons_append,
      List.append_assoc, List.cons_append]
    exact anotherItem_later.mpr
      ⟨_, b, _, dropSpace_cons (by decide) _, dropSpace_cons solid _, open', rfl⟩

theorem items_written {items : List Json} (inner : ∀ v ∈ items, WritesBack room v) (rest : Bytes) :
    ItemsRun (value room) true (encode (itemChars items) ++ 0x5D :: rest) items rest := by
  cases items with
  | nil => exact .done (dropSpace_cons (by decide) rest)
  | cons v later =>
    have run := moreItems_written (fun w member => inner w (List.mem_cons_of_mem v member)) rest
    refine item_written (inner v List.mem_cons_self) (fun b t bytes solid open' => ?_) run
    rw [itemChars_cons, encode_append, bytes, List.append_assoc, List.cons_append]
    exact anotherItem_first.mpr ⟨b, _, dropSpace_cons solid _, open', rfl⟩

end Items

section Members

variable {σ : Type}

/-- The bytes of a member behind the quote before its name. -/
theorem encode_member (name : String) (v : Json) (later : List (String × Json)) (rest : Bytes) :
    encode (memberChars ((name, v) :: later)) ++ rest =
      0x22 :: (encode (name.toList.flatMap escaped) ++
        0x22 :: 0x3A :: (encode v.chars ++ (encode (moreMembers later) ++ rest))) := by
  rw [memberChars_cons, encode_append, encode_quoted, encode_colon, encode_append]
  simp only [List.cons_append, List.append_assoc, List.nil_append]

/-- What comes of a step that meets a member in its written form, whatever ends the value. -/
def TakesAt (step : String → σ → Reader σ) (state : σ) (m : String × Json)
    (result : Except Problem σ) : Prop :=
  ∀ rest, Ends rest →
    step m.1 state (0x3A :: (encode m.2.chars ++ rest)) = result.map (·, rest)

/-- What comes of steps that meet the members of an object, one after the other. -/
inductive TakesAll (step : String → σ → Reader σ) :
    σ → List (String × Json) → Except Problem σ → Prop where
  | nil {state : σ} : TakesAll step state [] (.ok state)
  | cons {state : σ} {m : String × Json} {ms : List (String × Json)} {one : Except Problem σ}
      {onward : σ → Except Problem σ} (first : TakesAt step state m one)
      (later : ∀ mid, one = .ok mid → TakesAll step mid ms (onward mid)) :
      TakesAll step state (m :: ms) (one.bind onward)

/-- A member that is taken leaves the result to the members after it. -/
theorem TakesAll.next {step : String → σ → Reader σ} {state mid : σ} {m : String × Json}
    {ms : List (String × Json)} {result : Except Problem σ}
    (first : TakesAt step state m (.ok mid)) (later : TakesAll step mid ms result) :
    TakesAll step state (m :: ms) result := by
  have both : TakesAll step state (m :: ms) ((Except.ok mid).bind fun _ => result) := by
    apply TakesAll.cons first
    intro _ same
    cases same
    exact later
  exact both

/-- A step does to any state what the effect says. -/
def Takes (step : String → σ → Reader σ) (effect : σ → String × Json → Except Problem σ)
    (m : String × Json) : Prop :=
  ∀ state, TakesAt step state m (effect state m)

variable {step : String → σ → Reader σ} {effect : σ → String × Json → Except Problem σ}
  {ms : List (String × Json)}

theorem encode_string (s : String) (rest : Bytes) :
    encode (string s).chars ++ rest =
      0x22 :: (encode (s.toList.flatMap escaped) ++ 0x22 :: rest) := by
  rw [chars, encode_quoted, List.cons_append, List.append_assoc]
  rfl

theorem encode_object (ms : List (String × Json)) (rest : Bytes) :
    encode (object ms).chars ++ rest = 0x7B :: (encode (memberChars ms) ++ 0x7D :: rest) := by
  rw [chars, encode_cons, encode_append, List.append_assoc, List.append_assoc]
  rfl

theorem takesAll_foldlM (takes : ∀ m ∈ ms, Takes step effect m) (state : σ) :
    TakesAll step state ms (ms.foldlM effect state) := by
  induction ms generalizing state with
  | nil => exact .nil
  | cons m later ih =>
    obtain ⟨first, others⟩ := List.forall_mem_cons.mp takes
    exact .cons (first state) fun mid _ => ih others mid

theorem membersFrom_closed {bound : Bytes} {first : Bool} {rest : Bytes}
    (enough : (0x7D :: rest).length ≤ bound.length) (state : σ) :
    membersFrom step bound first state (0x7D :: rest) = .ok (state, 0x7D :: rest) := by
  cases bound with
  | nil => cases enough
  | cons _ bound =>
    have closed := dropSpace_cons (b := 0x7D) (by decide) rest
    rw [membersFrom, bind_of_ok (anotherMember_false.mpr ⟨rest, closed, rfl⟩)]
    rfl

/-- One round of the loop, from behind what comes before a member to behind its value. -/
theorem membersFrom_next {name : String} {v : Json} {later : List (String × Json)}
    {rest bound s : Bytes} {first : Bool} {b : UInt8} {state : σ} {one : Except Problem σ}
    (takes : TakesAt step state (name, v) one)
    (another : anotherMember first s = .ok (true, encode (name.toList.flatMap escaped) ++
      0x22 :: 0x3A :: (encode v.chars ++ (encode (moreMembers later) ++ 0x7D :: rest)))) :
    membersFrom step (b :: bound) first state s = one.bind fun state' =>
      membersFrom step bound false state' (encode (moreMembers later) ++ 0x7D :: rest) := by
  have read := takes _ (ends_moreMembers later rest)
  rw [membersFrom, bind_of_ok another, if_pos rfl, bind_of_ok (text_quoted name _)]
  cases one with
  | error p => exact bind_of_error read
  | ok state' => exact bind_of_ok read

theorem membersFrom_later {state : σ} {result : Except Problem σ}
    (takes : TakesAll step state ms result) {bound rest : Bytes}
    (enough : (encode (moreMembers ms) ++ 0x7D :: rest).length ≤ bound.length) :
    membersFrom step bound false state (encode (moreMembers ms) ++ 0x7D :: rest) =
      result.map (·, 0x7D :: rest) := by
  induction takes generalizing bound with
  | nil => exact membersFrom_closed enough _
  | @cons state m later one onward takes _ ih =>
    obtain ⟨name, v⟩ := m
    rw [moreMembers, encode_comma, List.cons_append, encode_member] at enough ⊢
    cases bound with
    | nil => cases enough
    | cons b bound =>
      have another : anotherMember false (0x2C :: 0x22 :: (encode (name.toList.flatMap escaped) ++
          0x22 :: 0x3A :: (encode v.chars ++ (encode (moreMembers later) ++ 0x7D :: rest)))) =
            .ok (true, _) :=
        anotherMember_later.mpr
          ⟨_, dropSpace_cons (by decide) _, dropSpace_cons (by decide) _⟩
      rw [membersFrom_next takes another]
      have short : (encode (moreMembers later) ++ 0x7D :: rest).length ≤ bound.length := by
        simp only [List.length_cons, List.length_append] at enough ⊢
        omega
      cases one with
      | error p => rfl
      | ok mid => exact ih mid rfl short

/-- What becomes of the members of a written object. -/
theorem members_written {state : σ} {result : Except Problem σ}
    (takes : TakesAll step state ms result) (rest : Bytes) :
    members step state (encode (memberChars ms) ++ 0x7D :: rest) =
      result.map (·, 0x7D :: rest) := by
  unfold members
  cases takes with
  | nil => exact membersFrom_closed (Nat.le_refl _) state
  | @cons _ m later one onward takes others =>
    obtain ⟨name, v⟩ := m
    rw [encode_member]
    have another : anotherMember true (0x22 :: (encode (name.toList.flatMap escaped) ++
        0x22 :: 0x3A :: (encode v.chars ++ (encode (moreMembers later) ++ 0x7D :: rest)))) =
          .ok (true, _) :=
      anotherMember_first.mpr (dropSpace_cons (by decide) _)
    rw [membersFrom_next takes another]
    cases one with
    | error p => rfl
    | ok mid =>
      apply membersFrom_later (others mid rfl)
      simp only [List.length_cons, List.length_append]
      omega

end Members

theorem writesBack_number {room : Nat} {n : Number} (run : NumberRun (encode n.text) n []) :
    WritesBack room (.number n) :=
  ⟨run.opens, fun _ ends => value_of_numberRun (run.append ends) room⟩

/-- A value that begins with a byte which no container opens with is read without looking at the
room left. -/
theorem value_of_run {room : Nat} {b : UInt8} {s t : Bytes} {v : Json} (solid : isSpace b = false)
    (run : ∀ list object, ValueRun list object (b :: s) v t) :
    value room (b :: s) = .ok (v, t) := by
  have read {list object : Reader Json} : valueWith list object (b :: s) = .ok (v, t) := by
    rw [valueWith_eq_ok, dropSpace_cons solid]
    exact run list object
  cases room <;> exact read

theorem writesBack_string {room : Nat} (s : String) : WritesBack room (.string s) := by
  have bytes := encode_string s []
  rw [List.append_nil] at bytes
  refine ⟨⟨_, _, bytes, by decide, by decide⟩, fun rest _ => ?_⟩
  rw [encode_string]
  exact value_of_run (by decide) fun _ _ => .string (text_quoted s rest)

theorem writesBack_array {room : Nat} {items : List Json} (inner : ∀ v ∈ items, WritesBack room v) :
    WritesBack (room + 1) (.array items) := by
  have bytes : encode (array items).chars = 0x5B :: (encode (itemChars items) ++ [0x5D]) := by
    rw [chars, encode_cons, encode_append]
    rfl
  refine ⟨⟨_, _, bytes, by decide, by decide⟩, fun rest _ => ?_⟩
  rw [bytes, List.cons_append, List.append_assoc, value_succ, valueWith_eq_ok,
    dropSpace_cons (by decide)]
  exact .list ((list_eq_ok length_value).mpr ⟨items, rfl, items_written inner rest⟩)

/-- Members whose values are read back are collected in reverse. -/
theorem takesAll_entries {α : Type} {entry : String → Reader α} (form : α → Json)
    {entries : List (String × α)} (each : ∀ e ∈ entries, ReadsAs (entry e.1) (form e.2) e.2)
    (read : List (String × α)) :
    TakesAll (entryStep entry) read (entries.map fun e => (e.1, form e.2))
      (.ok (entries.reverse ++ read)) := by
  induction entries generalizing read with
  | nil => exact .nil
  | cons e later ih =>
    obtain ⟨own, others⟩ := List.forall_mem_cons.mp each
    rw [List.map_cons, List.reverse_cons, List.append_assoc, List.singleton_append]
    refine .next (fun rest ends => ?_) (ih others (e :: read))
    exact entryStep_eq_ok.mpr ⟨_, _, dropSpace_cons (by decide) _, own rest ends, rfl⟩

theorem objectWith_written {room : Nat} {ms : List (String × Json)}
    (inner : ∀ m ∈ ms, WritesBack room m.2) (rest : Bytes) :
    objectWith (fun _ => value room) (encode (memberChars ms) ++ 0x7D :: rest) =
      .ok (.object ms, rest) := by
  have each : ∀ m ∈ ms, ReadsAs (value room) m.2 m.2 := fun m member => (inner m member).reads
  have taken : TakesAll (entryStep fun _ => value room) [] (ms.map id) (.ok (ms.reverse ++ [])) :=
    takesAll_entries id each []
  rw [List.map_id, List.append_nil] at taken
  unfold objectWith
  rw [bind_of_ok (members_written taken rest), List.reverse_reverse]
  rfl

theorem writesBack_object {room : Nat} {ms : List (String × Json)}
    (inner : ∀ m ∈ ms, WritesBack room m.2) : WritesBack (room + 1) (.object ms) := by
  have bytes := encode_object ms []
  rw [List.append_nil] at bytes
  refine ⟨⟨_, _, bytes, by decide, by decide⟩, fun rest _ => ?_⟩
  rw [encode_object, value_succ, valueWith_eq_ok, dropSpace_cons (by decide)]
  exact .object (objectWith_written inner rest)

/-- A tree of a text is read back from its written form if its doubles are. -/
theorem Readable.writesBack {room : Nat} {v : Json} (readable : Readable room v)
    (exact : ∀ x ∈ v.doubles, ReadsBack x) : WritesBack room v := by
  induction readable with
  | null =>
    exact ⟨⟨0x6E, _, rfl, by decide, by decide⟩, fun rest _ =>
      value_of_run (by decide) fun _ _ => .null rfl⟩
  | boolean b =>
    cases b with
    | true =>
      exact ⟨⟨0x74, _, rfl, by decide, by decide⟩, fun rest _ =>
        value_of_run (by decide) fun _ _ => .yes rfl⟩
    | false =>
      exact ⟨⟨0x66, _, rfl, by decide, by decide⟩, fun rest _ =>
        value_of_run (by decide) fun _ _ => .no rfl⟩
  | natural n => exact writesBack_number (numberRun_natural n)
  | negative negative => exact writesBack_number (numberRun_negative negative)
  | double x => exact writesBack_number (numberRun_double (exact x (by simp [doubles])))
  | string s => exact writesBack_string s
  | array _ ih =>
    exact writesBack_array fun v member =>
      ih v member fun x inside => exact x (mem_doubles_array.mpr ⟨v, member, inside⟩)
  | object _ ih =>
    exact writesBack_object fun m member =>
      ih m member fun x inside => exact x (mem_doubles_object.mpr ⟨m, member, inside⟩)

theorem bytes_compact (v : Json) : v.compact.toUTF8.data.toList = encode v.chars ++ [] := by
  rw [Text.Utf8.toUTF8_eq_encode, compact, String.toList_ofList, List.append_nil]

/-- A whole text that is the written form of a value is read as the value is. -/
theorem run_of_readsAs {α : Type} {reader : Reader α} {v : Json} {a : α}
    (reads : ReadsAs reader v a) : run reader v.compact.toUTF8.data.toList = .ok a := by
  rw [bytes_compact]
  exact run_eq_ok.mpr ⟨[], reads [] ends_nil, rfl⟩

/-- The written form of a tree of a document is the tree again. -/
theorem parse_compact {v : Json} (readable : Readable documentRoom v)
    (exact : ∀ x ∈ v.doubles, ReadsBack x) : Json.parse v.compact.toUTF8.data.toList = .ok v :=
  run_of_readsAs (readable.writesBack exact).reads

end QueueBench.Json
