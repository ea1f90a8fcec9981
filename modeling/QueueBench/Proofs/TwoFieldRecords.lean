import QueueBench.Proofs.SkippedValues
import QueueBench.Throughput.Record

set_option autoImplicit false

/- Records of two fields against the trees of their texts. A record is read in one pass and its
unknown members are passed over; the outline of a text is its tree with every unknown member null. A
text is a record just if its outline shows one, as an object or as a list. -/
namespace QueueBench.Json.Reader

variable {α β : Type}

/-- Reads the value of a known member, and passes over that of another. -/
def outlineEntry (known : List String) (room : Nat) (name : String) : Reader Json :=
  if name ∈ known then value room
  else do
    skip
    return Json.null

/-- The tree of a text where the members of other names than the known ones are passed over. Only
the members of the whole are meant, not those of objects inside it. -/
def outline (known : List String) : Nat → Reader Json
  | 0 => valueWith (fail .tooDeep) (fail .tooDeep)
  | room + 1 =>
    valueWith (do return Json.array (← items (value room))) (objectWith (outlineEntry known room))

/-- Puts null in the place of members of other names than the known ones. -/
def blanked (known : List String) (members : List (String × Json)) : List (String × Json) :=
  members.map fun m => if m.1 ∈ known then m else (m.1, .null)

def outlined (known : List String) : Json → Json
  | .object members => .object (blanked known members)
  | v => v

theorem outlineEntry_known {known : List String} {name : String} (isKnown : name ∈ known)
    (room : Nat) : outlineEntry known room name = value room := if_pos isKnown

theorem outlineEntry_other {known : List String} {name : String} (other : name ∉ known)
    {room : Nat} {s t : Bytes} {v : Json} :
    outlineEntry known room name s = .ok (v, t) ↔ skip s = .ok ((), t) ∧ v = .null := by
  unfold outlineEntry
  rw [if_neg other, map_eq_ok]
  exact ⟨fun ⟨_, skipped, blank⟩ => ⟨skipped, blank⟩, fun ⟨skipped, blank⟩ => ⟨(), skipped, blank⟩⟩

theorem length_skipFrom {bound s t : Bytes} {stack : List Frame}
    (ok : skipFrom bound stack s = .ok ((), t)) : t.length < s.length := by
  induction bound generalizing stack s with
  | nil => cases ok
  | cons _ bound ih =>
    rw [skipFrom, bind_eq_ok] at ok
    obtain ⟨still, u, opened, ok⟩ := ok
    have used := length_skipOpening opened
    split at ok
    · obtain ⟨-, rfl⟩ := pure_eq_ok.mp ok
      exact used
    · exact Nat.lt_trans (ih ok) used

section Outline

variable {known : List String} {room : Nat}

theorem length_outlineEntry (name : String) (s : Bytes) (v : Json) (t : Bytes)
    (ok : outlineEntry known room name s = .ok (v, t)) : t.length < s.length := by
  by_cases isKnown : name ∈ known
  · rw [outlineEntry_known isKnown] at ok
    exact length_value s v t ok
  · exact length_skipFrom ((outlineEntry_other isKnown).mp ok).1

theorem outline_entries {first : Bool} {s t : Bytes} {ms : List (String × Json)}
    (run : EntriesRun (fun _ => value room) first s ms t) :
    EntriesRun (outlineEntry known room) first s (blanked known ms) t := by
  induction run with
  | done closed => exact .done closed
  | @next _ _ _ _ _ _ _ name v later another named separated read _ ih =>
    by_cases isKnown : name ∈ known
    · have kept : blanked known ((name, v) :: later) = (name, v) :: blanked known later := by
        simp only [blanked, List.map_cons, isKnown, ↓reduceIte]
      rw [kept]
      exact .next another named separated (by rwa [outlineEntry_known isKnown]) ih
    · have cleared : blanked known ((name, v) :: later) = (name, .null) :: blanked known later := by
        simp only [blanked, List.map_cons, isKnown, ↓reduceIte]
      rw [cleared]
      exact .next another named separated
        ((outlineEntry_other isKnown).mpr ⟨skip_of_value read, rfl⟩) ih

theorem outline_run {list object list' object' : Reader Json} {s t : Bytes} {v : Json}
    (lists : ∀ s v t, list s = .ok (v, t) → list' s = .ok (outlined known v, t))
    (objects : ∀ s v t, object s = .ok (v, t) → object' s = .ok (outlined known v, t))
    (run : ValueRun list object s v t) : ValueRun list' object' s (outlined known v) t := by
  cases run with
  | null read => exact .null read
  | yes read => exact .yes read
  | no read => exact .no read
  | minus read => exact .minus read
  | digit digit read => exact .digit digit read
  | string read => exact .string read
  | list read => exact .list (lists _ _ _ read)
  | object read => exact .object (objects _ _ _ read)

/-- A text that can be read as a tree has the outline of the tree. -/
theorem outline_of_value {s t : Bytes} {v : Json} (read : value room s = .ok (v, t)) :
    outline known room s = .ok (outlined known v, t) := by
  cases room with
  | zero =>
    refine valueWith_eq_ok.mpr (outline_run ?_ ?_ (valueWith_eq_ok.mp read))
    · rintro _ _ _ ⟨⟩
    · rintro _ _ _ ⟨⟩
  | succ room =>
    rw [value_succ] at read
    refine valueWith_eq_ok.mpr (outline_run ?_ ?_ (valueWith_eq_ok.mp read))
    · intro s v t read
      obtain ⟨vs, rfl, run⟩ := (list_eq_ok length_value).mp read
      exact read
    · intro s v t read
      obtain ⟨ms, rfl, run⟩ := (objectWith_eq_ok fun _ => length_value).mp read
      exact (objectWith_eq_ok length_outlineEntry).mpr ⟨_, rfl, outline_entries run⟩

end Outline

theorem bind_reject_ne_ok {x : Reader β} {m : β → Document.Mismatch} {s t : Bytes} {a : α} :
    (do reject (m (← x)) : Reader α) s ≠ .ok (a, t) := by
  intro ok
  obtain ⟨_, _, _, rejected⟩ := bind_eq_ok.mp ok
  cases rejected

theorem refuse_ne_ok {expected : String} {s t : Bytes} {a : α} :
    refuse expected s ≠ .ok (a, t) := by
  intro ok
  unfold refuse at ok
  dsimp only at ok
  split at ok
  · cases ok
  split at ok
  case isTrue null => exact bind_reject_ne_ok ok
  split at ok
  case isTrue yes => exact bind_reject_ne_ok ok
  split at ok
  case isTrue no => exact bind_reject_ne_ok ok
  split at ok
  case isTrue minus => exact bind_reject_ne_ok ok
  split at ok
  case isTrue digit => exact bind_reject_ne_ok ok
  split at ok
  case isTrue quote => exact bind_reject_ne_ok ok
  split at ok
  case isTrue bracket => cases ok
  split at ok
  case isTrue brace => cases ok
  case isFalse => cases ok

theorem opening_eq_ok {expected : String} {list object : Nat → Reader α} {room : Nat} {s t : Bytes}
    {a : α} : opening expected (some list) (some object) (room + 1) s = .ok (a, t) ↔
      (∃ u, dropSpace s = 0x5B :: u ∧ list room u = .ok (a, t)) ∨
        ∃ u, dropSpace s = 0x7B :: u ∧ object room u = .ok (a, t) := by
  unfold opening
  cases dropSpace s with
  | nil => simp only [reduceCtorEq, false_and, exists_false, or_false]
  | cons b rest =>
    dsimp only
    split
    case isTrue bracket =>
      subst bracket
      simp
    case isFalse noBracket =>
      split
      case isTrue brace =>
        subst brace
        simp
      case isFalse noBrace => simp [noBracket, noBrace, refuse_ne_ok]

theorem opening_zero {expected : String} {list object : Nat → Reader α} {s t : Bytes} {a : α} :
    opening expected (some list) (some object) 0 s ≠ .ok (a, t) := by
  intro ok
  unfold opening at ok
  dsimp only at ok
  split at ok
  · cases ok
  split at ok
  case isTrue bracket => cases ok
  split at ok
  case isTrue brace => cases ok
  case isFalse => exact refuse_ne_ok ok

/-- A field whose value is read as a tree and then looked at. -/
def Field.ReadsOff (field : Field α) (shown : Json → Option α) : Prop :=
  ∀ room s a t, field.value room s = .ok (a, t) ↔
    ∃ v, Reader.value room s = .ok (v, t) ∧ shown v = some a

/-- What members say about a field that was or was not there before. -/
def taken (name : String) (shown : Json → Option α) :
    Option α → List (String × Json) → Option (Option α)
  | before, [] => some before
  | before, (n, v) :: later =>
    if n = name then
      match before with
      | some _ => none
      | none => (shown v).bind fun a => taken name shown (some a) later
    else taken name shown before later

theorem next_eq_ok {field : Field α} {room : Nat} {before : Option α} {s t : Bytes} {a : α} :
    field.next room before s = .ok (a, t) ↔
      before = none ∧ ∃ u, dropSpace s = 0x3A :: u ∧ field.value room u = .ok (a, t) := by
  unfold Field.next
  cases before with
  | some b =>
    simp only [Option.isSome_some, ↓reduceIte, reduceCtorEq, false_and, iff_false]
    intro ok
    obtain ⟨_, _, rejected, _⟩ := bind_eq_ok.mp ok
    cases rejected
  | none =>
    simp only [Option.isSome_none, Bool.false_eq_true, ↓reduceIte, true_and]
    rw [bind_eq_ok]
    constructor
    · rintro ⟨_, u, separated, read⟩
      exact ⟨u, colon_eq_ok.mp separated, read⟩
    · rintro ⟨u, separated, read⟩
      exact ⟨(), u, colon_eq_ok.mpr separated, read⟩

theorem taken_one {name : String} {shown : Json → Option α} {before after : Option α} {v : Json} :
    taken name shown before [(name, v)] = some after ↔
      before = none ∧ ∃ a, shown v = some a ∧ after = some a := by
  cases before with
  | some b => simp [taken]
  | none =>
    simp only [taken, ↓reduceIte, Option.bind_eq_some_iff, Option.some.injEq, true_and]
    grind

theorem taken_other {name n : String} (other : n ≠ name) {shown : Json → Option α}
    {before after : Option α} {v : Json} :
    taken name shown before [(n, v)] = some after ↔ after = before := by
  simp only [taken, other, ↓reduceIte, Option.some.injEq]
  exact eq_comm

theorem taken_cons {name : String} {shown : Json → Option α} {before : Option α} {m : String × Json}
    {later : List (String × Json)} : taken name shown before (m :: later) =
      (taken name shown before [m]).bind fun mid => taken name shown mid later := by
  obtain ⟨n, v⟩ := m
  by_cases same : n = name
  · subst same
    cases before with
    | some b => simp [taken]
    | none =>
      simp only [taken, ↓reduceIte, Option.bind_assoc]
      rfl
  · simp only [taken, same, ↓reduceIte, Option.bind_some]

section Pairs

variable {a : Field α} {b : Field β} {f : Json → Option α} {g : Json → Option β} {room : Nat}

def pairStep (a : Field α) (b : Field β) (room : Nat) (name : String)
    (state : Option α × Option β) : Reader (Option α × Option β) := do
  if name = a.name then return (some (← a.next room state.1), state.2)
  else if name = b.name then return (state.1, some (← b.next room state.2))
  else
    colon
    skip
    return state

theorem fieldNext_eq_ok (reads : a.ReadsOff f) {before after : Option α} {s t : Bytes} :
    (∃ x, a.next room before s = .ok (x, t) ∧ after = some x) ↔
      ∃ u v, dropSpace s = 0x3A :: u ∧ value room u = .ok (v, t) ∧
        taken a.name f before [(a.name, v)] = some after := by
  simp only [next_eq_ok, taken_one]
  constructor
  · rintro ⟨x, ⟨absent, u, separated, read⟩, rfl⟩
    obtain ⟨v, tree, shown⟩ := (reads room u x t).mp read
    exact ⟨u, v, separated, tree, absent, x, shown, rfl⟩
  · rintro ⟨u, v, separated, tree, absent, x, shown, rfl⟩
    exact ⟨x, ⟨absent, u, separated, (reads room u x t).mpr ⟨v, tree, shown⟩⟩, rfl⟩

variable (readsA : a.ReadsOff f) (readsB : b.ReadsOff g) (apart : a.name ≠ b.name)
include readsA readsB apart

theorem pairStep_eq_ok {name : String} {state state' : Option α × Option β} {s t : Bytes} :
    pairStep a b room name state s = .ok (state', t) ↔
      ∃ u v, dropSpace s = 0x3A :: u ∧ outlineEntry [a.name, b.name] room name u = .ok (v, t) ∧
        taken a.name f state.1 [(name, v)] = some state'.1 ∧
        taken b.name g state.2 [(name, v)] = some state'.2 := by
  obtain ⟨x, y⟩ := state
  obtain ⟨x', y'⟩ := state'
  unfold pairStep
  dsimp only
  by_cases isA : name = a.name
  · subst isA
    rw [if_pos rfl, map_eq_ok, outlineEntry_known List.mem_cons_self]
    simp only [taken_other apart, Prod.mk.injEq]
    constructor
    · rintro ⟨x₁, next, same, rfl⟩
      obtain ⟨u, v, separated, tree, took⟩ := (fieldNext_eq_ok readsA).mp ⟨x₁, next, same⟩
      exact ⟨u, v, separated, tree, took, rfl⟩
    · rintro ⟨u, v, separated, tree, took, rfl⟩
      obtain ⟨x₁, next, same⟩ := (fieldNext_eq_ok readsA).mpr ⟨u, v, separated, tree, took⟩
      exact ⟨x₁, next, same, rfl⟩
  by_cases isB : name = b.name
  · subst isB
    rw [if_neg isA, if_pos rfl, map_eq_ok, outlineEntry_known (by simp)]
    simp only [taken_other isA, Prod.mk.injEq]
    constructor
    · rintro ⟨y₁, next, rfl, same⟩
      obtain ⟨u, v, separated, tree, took⟩ := (fieldNext_eq_ok readsB).mp ⟨y₁, next, same⟩
      exact ⟨u, v, separated, tree, rfl, took⟩
    · rintro ⟨u, v, separated, tree, rfl, took⟩
      obtain ⟨y₁, next, same⟩ := (fieldNext_eq_ok readsB).mpr ⟨u, v, separated, tree, took⟩
      exact ⟨y₁, next, rfl, same⟩
  · have other : name ∉ [a.name, b.name] := by simp [isA, isB]
    rw [if_neg isA, if_neg isB, bind_eq_ok]
    simp only [taken_other isA, taken_other isB, outlineEntry_other other]
    constructor
    · rintro ⟨_, u, separated, ok⟩
      obtain ⟨_, skipped, same⟩ := map_eq_ok.mp ok
      cases same
      exact ⟨u, .null, colon_eq_ok.mp separated, ⟨skipped, rfl⟩, rfl, rfl⟩
    · rintro ⟨u, v, separated, ⟨skipped, -⟩, rfl, rfl⟩
      exact ⟨(), u, colon_eq_ok.mpr separated, map_eq_ok.mpr ⟨(), skipped, rfl⟩⟩

theorem length_pairStep (name : String) (state : Option α × Option β) (s : Bytes)
    (state' : Option α × Option β) (t : Bytes)
    (ok : pairStep a b room name state s = .ok (state', t)) : t.length < s.length := by
  obtain ⟨u, v, separated, entry, -, -⟩ := (pairStep_eq_ok readsA readsB apart).mp ok
  exact Nat.lt_trans (length_outlineEntry _ _ _ _ entry) (length_of_dropSpace separated)

/-- The members of a record are read as their outline tells. -/
theorem pairs_of_run {first : Bool} {state state' : Option α × Option β} {s t : Bytes}
    (run : MembersRun (pairStep a b room) first state s state' t) :
    ∃ ms u, t = 0x7D :: u ∧ EntriesRun (outlineEntry [a.name, b.name] room) first s ms u ∧
      taken a.name f state.1 ms = some state'.1 ∧ taken b.name g state.2 ms = some state'.2 := by
  induction run with
  | done closed => exact ⟨[], _, rfl, .done closed, rfl, rfl⟩
  | next another named read _ ih =>
    obtain ⟨u, v, separated, entry, tookA, tookB⟩ := (pairStep_eq_ok readsA readsB apart).mp read
    obtain ⟨ms, w, rfl, run, laterA, laterB⟩ := ih
    refine ⟨(_, v) :: ms, w, rfl, .next another named separated entry run, ?_, ?_⟩
    · rw [taken_cons, tookA]
      exact laterA
    · rw [taken_cons, tookB]
      exact laterB

theorem run_of_pairs {first : Bool} {ms : List (String × Json)} {s t : Bytes}
    (run : EntriesRun (outlineEntry [a.name, b.name] room) first s ms t)
    {state state' : Option α × Option β} (tookA : taken a.name f state.1 ms = some state'.1)
    (tookB : taken b.name g state.2 ms = some state'.2) :
    MembersRun (pairStep a b room) first state s state' (0x7D :: t) := by
  induction run generalizing state with
  | done closed =>
    have same : state = state' := Prod.ext (Option.some.inj tookA) (Option.some.inj tookB)
    subst same
    exact .done closed
  | next another named separated read _ ih =>
    rw [taken_cons, Option.bind_eq_some_iff] at tookA tookB
    obtain ⟨x, nowA, laterA⟩ := tookA
    obtain ⟨y, nowB, laterB⟩ := tookB
    exact .next another named ((pairStep_eq_ok readsA readsB apart).mpr
      ⟨_, _, separated, read, nowA, nowB⟩) (@ih (x, y) laterA laterB)

end Pairs

/-- What a field is at the end of an object. -/
def Field.closed (field : Field α) (found : Option α) : Option α := found.or field.absent

theorem close_eq_ok {field : Field α} {found : Option α} {s t : Bytes} {a : α} :
    field.close found s = .ok (a, t) ↔ field.closed found = some a ∧ t = s := by
  unfold Field.close Field.closed
  cases found with
  | some x =>
    rw [pure_eq_ok, Option.some_or, Option.some.injEq]
    exact and_congr_left' eq_comm
  | none =>
    cases field.absent with
    | some x =>
      rw [Option.none_or, Option.some.injEq, eq_comm (a := x)]
      exact pure_eq_ok
    | none => simp [reject, fail]

/-- How a tree shows a record of two fields. -/
inductive PairShown (a : Field α) (b : Field β) (f : Json → Option α) (g : Json → Option β) :
    Json → α × β → Prop where
  | object {ms : List (String × Json)} {x : α} {y : β} {x' : Option α} {y' : Option β}
      (tookA : taken a.name f none ms = some x') (tookB : taken b.name g none ms = some y')
      (closedA : a.closed x' = some x) (closedB : b.closed y' = some y) :
      PairShown a b f g (.object ms) (x, y)
  | two {v w : Json} {x : α} {y : β} (first : f v = some x) (second : g w = some y) :
      PairShown a b f g (.array [v, w]) (x, y)
  | one {v : Json} {x : α} {y : β} (first : f v = some x) (absent : b.absent = some y) :
      PairShown a b f g (.array [v]) (x, y)
  | empty {x : α} {y : β} (first : a.absent = some x) (second : b.absent = some y) :
      PairShown a b f g (.array []) (x, y)

theorem endList_eq_ok {s t : Bytes} : endList s = .ok ((), t) ↔ dropSpace s = 0x5D :: t := by
  unfold endList
  cases dropSpace s with
  | nil => simp
  | cons b rest =>
    dsimp only
    by_cases bracket : b = 0x5D
    · simp [bracket]
    · simp only [bracket, ↓reduceIte, List.cons.injEq, false_and, iff_false]
      grind

theorem item_eq_ok {field : Field α} {f : Json → Option α} (reads : field.ReadsOff f) {room : Nat}
    {shape : String} {index : Nat} {first : Bool} {s t : Bytes} {x : α} :
    field.item room shape index first s = .ok (x, t) ↔
      (∃ u v, anotherItem first s = .ok (true, u) ∧ value room u = .ok (v, t) ∧ f v = some x) ∨
        ∃ u, dropSpace s = 0x5D :: u ∧ t = 0x5D :: u ∧ field.absent = some x := by
  unfold Field.item
  rw [bind_eq_ok]
  constructor
  · rintro ⟨more, u, another, ok⟩
    cases more with
    | true =>
      obtain ⟨v, tree, shown⟩ := (reads room u x t).mp ok
      exact .inl ⟨u, v, another, tree, shown⟩
    | false =>
      obtain ⟨w, closed, rfl⟩ := anotherItem_false.mp another
      cases absent : field.absent with
      | none =>
        rw [absent] at ok
        cases ok
      | some y =>
        rw [absent] at ok
        obtain ⟨rfl, rfl⟩ := pure_eq_ok.mp ok
        exact .inr ⟨w, closed, rfl, rfl⟩
  · rintro (⟨u, v, another, tree, shown⟩ | ⟨u, closed, rfl, absent⟩)
    · exact ⟨true, u, another, (reads room u x t).mpr ⟨v, tree, shown⟩⟩
    · refine ⟨false, _, anotherItem_false.mpr ⟨u, closed, rfl⟩, ?_⟩
      rw [absent]
      rfl

theorem record2_succ {a : Field α} {b : Field β} {room : Nat} {owner : String} {s t : Bytes}
    {r : α × β} :
    record2 owner a b (room + 1) s = .ok (r, t) ↔
      (∃ u, dropSpace s = 0x5B :: u ∧ (do
        let x ← a.item room (lengthText owner "2") 0 true
        let y ← b.item room (lengthText owner "2") 1 false
        endList
        return (x, y) : Reader (α × β)) u = .ok (r, t)) ∨
      ∃ u, dropSpace s = 0x7B :: u ∧ (do
        let state ← members (pairStep a b room) (none, none)
        let x ← a.close state.1
        let y ← b.close state.2
        advance
        return (x, y) : Reader (α × β)) u = .ok (r, t) := opening_eq_ok

section Records

variable {a : Field α} {b : Field β} {f : Json → Option α} {g : Json → Option β} {room : Nat}
  (readsA : a.ReadsOff f) (readsB : b.ReadsOff g)
include readsA readsB

/-- The list form of a record of two fields. -/
theorem pairList_eq_ok {shape shape' : String} {s t : Bytes} {x : α} {y : β} :
    (do
      let x ← a.item room shape 0 true
      let y ← b.item room shape' 1 false
      endList
      return (x, y) : Reader (α × β)) s = .ok ((x, y), t) ↔
      ∃ vs, ItemsRun (value room) true s vs t ∧ PairShown a b f g (.array vs) (x, y) := by
  constructor
  · intro ok
    obtain ⟨x, u, itemA, ok⟩ := bind_eq_ok.mp ok
    obtain ⟨y, v, itemB, ok⟩ := bind_eq_ok.mp ok
    obtain ⟨_, w, ended, ok⟩ := bind_eq_ok.mp ok
    cases ok
    have ended := endList_eq_ok.mp ended
    rcases (item_eq_ok readsA).mp itemA with
      ⟨u₁, v₁, another, tree, shown⟩ | ⟨u₁, closed, rfl, absent⟩
    · rcases (item_eq_ok readsB).mp itemB with
        ⟨u₂, v₂, another', tree', shown'⟩ | ⟨u₂, closed, rfl, absent⟩
      · exact ⟨[v₁, v₂], .next another tree (.next another' tree' (.done ended)), .two shown shown'⟩
      · rw [dropSpace_cons (by decide), List.cons.injEq] at ended
        rw [ended.2] at closed
        exact ⟨[v₁], .next another tree (.done closed), .one shown absent⟩
    -- an end found in place of the first value is still there in place of the second
    · rcases (item_eq_ok readsB).mp itemB with
        ⟨u₂, v₂, another', tree', shown'⟩ | ⟨u₂, closed', rfl, absent'⟩
      · obtain ⟨_, _, _, comma, -⟩ := anotherItem_later.mp another'
        rw [dropSpace_cons (by decide), List.cons.injEq] at comma
        exact absurd comma.1 (by decide)
      · rw [dropSpace_cons (by decide), List.cons.injEq] at ended closed'
        rw [closed'.2, ended.2] at closed
        exact ⟨[], .done closed, .empty absent absent'⟩
  · rintro ⟨vs, run, shown⟩
    have finish {u v w : Bytes} (itemA : a.item room shape 0 true s = .ok (x, u))
        (itemB : b.item room shape' 1 false u = .ok (y, v)) (ended : dropSpace v = 0x5D :: w) :
        (do
          let x ← a.item room shape 0 true
          let y ← b.item room shape' 1 false
          endList
          return (x, y) : Reader (α × β)) s = .ok ((x, y), w) := by
      rw [bind_of_ok itemA, bind_of_ok itemB, bind_of_ok (endList_eq_ok.mpr ended)]
      rfl
    cases shown with
    | two shown shown' =>
      obtain _ | ⟨another, tree, run⟩ := run
      obtain _ | ⟨another', tree', run⟩ := run
      obtain ⟨closed⟩ | _ := run
      exact finish ((item_eq_ok readsA).mpr (.inl ⟨_, _, another, tree, shown⟩))
        ((item_eq_ok readsB).mpr (.inl ⟨_, _, another', tree', shown'⟩)) closed
    | one shown absent =>
      obtain _ | ⟨another, tree, run⟩ := run
      obtain ⟨closed⟩ | _ := run
      exact finish ((item_eq_ok readsA).mpr (.inl ⟨_, _, another, tree, shown⟩))
        ((item_eq_ok readsB).mpr (.inr ⟨_, closed, rfl, absent⟩)) (dropSpace_cons (by decide) _)
    | empty absent absent' =>
      obtain ⟨closed⟩ | _ := run
      have bracket : dropSpace (0x5D :: t) = 0x5D :: t := dropSpace_cons (by decide) _
      exact finish ((item_eq_ok readsA).mpr (.inr ⟨_, closed, rfl, absent⟩))
        ((item_eq_ok readsB).mpr (.inr ⟨_, bracket, rfl, absent'⟩)) bracket

variable (apart : a.name ≠ b.name)
include apart

theorem pairObject_eq_ok {s t : Bytes} {x : α} {y : β} :
    (do
      let state ← members (pairStep a b room) (none, none)
      let x ← a.close state.1
      let y ← b.close state.2
      advance
      return (x, y) : Reader (α × β)) s = .ok ((x, y), t) ↔
      ∃ ms, EntriesRun (outlineEntry [a.name, b.name] room) true s ms t ∧
        PairShown a b f g (.object ms) (x, y) := by
  constructor
  · intro ok
    obtain ⟨state, u, read, closing⟩ := bind_eq_ok.mp ok
    obtain ⟨x, v, closedA, closing'⟩ := bind_eq_ok.mp closing
    obtain ⟨y, w, closedB, ended⟩ := bind_eq_ok.mp closing'
    obtain ⟨valueA, rfl⟩ := close_eq_ok.mp closedA
    obtain ⟨valueB, rfl⟩ := close_eq_ok.mp closedB
    obtain ⟨ms, w, rfl, run, tookA, tookB⟩ :=
      pairs_of_run readsA readsB apart
        ((members_eq_ok (length_pairStep readsA readsB apart)).mp read)
    cases ended
    exact ⟨ms, run, .object tookA tookB valueA valueB⟩
  · rintro ⟨ms, run, shown⟩
    obtain ⟨tookA, tookB, closedA, closedB⟩ | _ := shown
    have pairs : MembersRun (pairStep a b room) true (none, none) s (_, _) (0x7D :: t) :=
      run_of_pairs readsA readsB apart run tookA tookB
    have read := (members_eq_ok (length_pairStep readsA readsB apart)).mpr pairs
    rw [bind_of_ok read, bind_of_ok (close_eq_ok.mpr ⟨closedA, rfl⟩),
      bind_of_ok (close_eq_ok.mpr ⟨closedB, rfl⟩)]
    rfl

/-- A text is a record of two fields just if its outline shows one. -/
theorem record2_eq_ok {owner : String} {s t : Bytes} {r : α × β} :
    record2 owner a b room s = .ok (r, t) ↔
      ∃ top, outline [a.name, b.name] room s = .ok (top, t) ∧ PairShown a b f g top r := by
  obtain ⟨x, y⟩ := r
  cases room with
  | zero =>
    constructor
    · intro ok
      exact absurd ok opening_zero
    · rintro ⟨top, read, shown⟩
      have run := valueWith_eq_ok.mp read
      generalize dropSpace s = front at run
      cases run with
      | list read => cases read
      | object read => cases read
      | _ => cases shown
  | succ room =>
    rw [record2_succ]
    simp only [outline, valueWith_eq_ok]
    constructor
    · rintro (⟨u, bracket, ok⟩ | ⟨u, brace, ok⟩)
      · obtain ⟨vs, run, shown⟩ := (pairList_eq_ok readsA readsB).mp ok
        refine ⟨.array vs, ?_, shown⟩
        rw [bracket]
        exact .list ((list_eq_ok length_value).mpr ⟨vs, rfl, run⟩)
      · obtain ⟨ms, run, shown⟩ := (pairObject_eq_ok readsA readsB apart).mp ok
        refine ⟨.object ms, ?_, shown⟩
        rw [brace]
        exact .object ((objectWith_eq_ok length_outlineEntry).mpr ⟨ms, rfl, run⟩)
    · rintro ⟨top, run, shown⟩
      generalize dropSpace s = front at run
      cases run with
      | list read =>
        obtain ⟨vs, rfl, run⟩ := (list_eq_ok length_value).mp read
        exact .inl ⟨_, rfl, (pairList_eq_ok readsA readsB).mpr ⟨vs, run, shown⟩⟩
      | object read =>
        obtain ⟨ms, rfl, run⟩ := (objectWith_eq_ok length_outlineEntry).mp read
        exact .inr ⟨_, rfl, (pairObject_eq_ok readsA readsB apart).mpr ⟨ms, run, shown⟩⟩
      | _ => cases shown

end Records

end QueueBench.Json.Reader
