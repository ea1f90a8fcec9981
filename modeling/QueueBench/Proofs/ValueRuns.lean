import QueueBench.Proofs.ReaderRuns

set_option autoImplicit false

namespace QueueBench.Json.Reader

/-- A number from its digits, the digits after its point and its exponent. -/
def assemble (minus : Bool) (ds : Bytes) (fraction : Option Bytes) (power : Option Int) : Number :=
  match fraction, power with
  | none, none => integerNumber minus (charsOfDigits ds)
  | _, _ => .double (Decimal.approximate minus (charsOfDigits ds)
      (charsOfDigits (fraction.getD [])) (power.getD 0))

/-- Whether a number is no double out of range. -/
def InRange : Number → Prop
  | .double x => x.isFinite
  | _ => True

theorem number_eq_ok {minus : Bool} {s t : Bytes} {n : Number} :
    number minus s = .ok (n, t) ↔
      ∃ ds u fraction v power, whole s = .ok (ds, u) ∧ places u = .ok (fraction, v) ∧
        exponent v = .ok (power, t) ∧ n = assemble minus ds fraction power ∧ InRange n := by
  have finished (m : Number) (v : Bytes) :
      (match m with
        | .double x => if x.isFinite then return .double x else fail .numberOutOfRange
        | n => return n : Reader Number) v = .ok (n, t) ↔ t = v ∧ n = m ∧ InRange n := by
    cases m with
    | natural k => grind [pure_eq_ok, InRange]
    | negative i => grind [pure_eq_ok, InRange]
    | double x =>
      dsimp only
      split
      · grind [pure_eq_ok, InRange]
      · simp only [fail, reduceCtorEq, false_iff]
        rintro ⟨-, rfl, finite⟩
        exact absurd finite (by assumption)
  constructor
  · intro ok
    obtain ⟨ds, u, integer, ok⟩ := bind_eq_ok.mp ok
    obtain ⟨fraction, v, point, ok⟩ := bind_eq_ok.mp ok
    obtain ⟨power, w, mark, ok⟩ := bind_eq_ok.mp ok
    obtain ⟨rfl, whole, finite⟩ := (finished (assemble minus ds fraction power) w).mp ok
    exact ⟨ds, u, fraction, v, power, integer, point, mark, whole, finite⟩
  · rintro ⟨ds, u, fraction, v, power, integer, point, mark, whole, finite⟩
    refine bind_eq_ok.mpr ⟨ds, u, integer, bind_eq_ok.mpr ⟨fraction, v, point,
      bind_eq_ok.mpr ⟨power, t, mark, ?_⟩⟩⟩
    exact (finished (assemble minus ds fraction power) t).mpr ⟨rfl, whole, finite⟩

theorem whole_eq_ok {s t ds : Bytes} :
    whole s = .ok (ds, t) ↔ ds = s.takeWhile isDigit ∧ t = s.dropWhile isDigit ∧ ds ≠ [] ∧
      ¬ (s.head? = some 0x30 ∧ 1 < ds.length) := by
  cases s with
  | nil =>
    simp only [whole, reduceCtorEq, List.takeWhile_nil, List.dropWhile_nil, false_iff]
    rintro ⟨rfl, -, nonempty, -⟩
    exact nonempty rfl
  | cons b rest =>
    rw [whole]
    grind

/-- Whether a byte opens the digits after the point. -/
def IsPoint (b : UInt8) : Prop := b = 0x2E

def IsMark (b : UInt8) : Prop := b = 0x65 ∨ b = 0x45

theorem places_other {s : Bytes} (other : ∀ b ∈ s.head?, ¬ IsPoint b) :
    places s = .ok (none, s) := by
  unfold places
  split
  · exact absurd rfl (other 0x2E rfl)
  · rfl

theorem exponent_other {s : Bytes} (other : ∀ b ∈ s.head?, ¬ IsMark b) :
    exponent s = .ok (none, s) := by
  cases s with
  | nil => rfl
  | cons b r => exact if_neg (other b rfl)

theorem places_eq_ok {s t : Bytes} {fraction : Option Bytes} :
    places s = .ok (fraction, t) ↔
      ((∀ b ∈ s.head?, ¬ IsPoint b) ∧ fraction = none ∧ t = s) ∨
        ∃ b r, s = b :: r ∧ IsPoint b ∧ r.takeWhile isDigit ≠ [] ∧
          fraction = some (r.takeWhile isDigit) ∧ t = r.dropWhile isDigit := by
  by_cases other : ∀ b ∈ s.head?, ¬ IsPoint b
  · rw [places_other other]
    grind
  · push Not at other
    obtain ⟨b, head, rfl⟩ := other
    obtain ⟨r, rfl⟩ := List.head?_eq_some_iff.mp head
    by_cases empty : (r.takeWhile isDigit).isEmpty
    · have failed : ∀ p, places (0x2E :: r) ≠ .ok p := by
        intro p
        simp only [places, empty, ↓reduceIte, ne_eq, reduceCtorEq, not_false_eq_true]
      grind [IsPoint]
    · simp only [places, empty]
      grind [IsPoint]

theorem exponent_eq_ok {s t : Bytes} {power : Option Int} :
    exponent s = .ok (power, t) ↔
      ((∀ b ∈ s.head?, ¬ IsMark b) ∧ power = none ∧ t = s) ∨
        ∃ b r, s = b :: r ∧ IsMark b ∧ (sign r).2.takeWhile isDigit ≠ [] ∧
          power = some (Decimal.signed (sign r).1
            (Decimal.ofDigitsUpTo exponentBound (charsOfDigits ((sign r).2.takeWhile isDigit)))) ∧
          t = (sign r).2.dropWhile isDigit := by
  by_cases other : ∀ b ∈ s.head?, ¬ IsMark b
  · rw [exponent_other other]
    grind
  · push Not at other
    obtain ⟨b, head, mark⟩ := other
    obtain ⟨r, rfl⟩ := List.head?_eq_some_iff.mp head
    have opened : b = 0x65 ∨ b = 0x45 := mark
    simp only [exponent, opened, ↓reduceIte]
    constructor
    · intro ok
      split at ok
      case isTrue => cases ok
      case isFalse nonempty =>
        cases ok
        exact .inr ⟨b, r, rfl, mark, fun empty => nonempty (List.isEmpty_iff.mpr empty), rfl, rfl⟩
    · rintro (⟨unmarked, -⟩ | ⟨b', r', same, -, nonempty, rfl, rfl⟩)
      · exact absurd mark (unmarked b rfl)
      · cases same
        rw [if_neg (fun empty => nonempty (List.isEmpty_iff.mp empty))]

theorem sign_suffix (s : Bytes) : (sign s).2 <:+ s := by
  unfold sign
  split
  · exact List.suffix_cons _ _
  · exact List.suffix_cons _ _
  · exact List.suffix_rfl

theorem length_dropWhile_digits {s : Bytes} (some : s.takeWhile isDigit ≠ []) :
    (s.dropWhile isDigit).length < s.length := by
  have parts := congrArg List.length (List.takeWhile_append_dropWhile (p := isDigit) (l := s))
  rw [List.length_append] at parts
  have used := List.length_pos_iff.mpr some
  omega

/-- A number leaves what follows it, and has at least one digit. -/
theorem number_suffix {minus : Bool} {s t : Bytes} {n : Number} (ok : number minus s = .ok (n, t)) :
    t <:+ s ∧ t.length < s.length := by
  obtain ⟨ds, u, fraction, v, power, integer, point, mark, -, -⟩ := number_eq_ok.mp ok
  obtain ⟨rfl, rfl, nonempty, -⟩ := whole_eq_ok.mp integer
  have digits := length_dropWhile_digits nonempty
  have afterPoint : v <:+ s.dropWhile isDigit := by
    rcases places_eq_ok.mp point with ⟨-, -, rfl⟩ | ⟨b, r, shape, -, -, -, rfl⟩
    · exact List.suffix_rfl
    · rw [shape]
      exact (List.dropWhile_suffix _).trans (List.suffix_cons _ _)
  have afterMark : t <:+ v := by
    rcases exponent_eq_ok.mp mark with ⟨-, -, rfl⟩ | ⟨b, r, rfl, -, -, -, rfl⟩
    · exact List.suffix_rfl
    · exact ((List.dropWhile_suffix _).trans (sign_suffix r)).trans (List.suffix_cons _ _)
  have rest := afterMark.trans afterPoint
  exact ⟨rest.trans (List.dropWhile_suffix _), Nat.lt_of_le_of_lt rest.length_le digits⟩

/-- How the first byte of a value decides what it is, given the readers of containers. -/
inductive ValueRun (list object : Reader Json) : Bytes → Json → Bytes → Prop where
  | null {s t : Bytes} (read : restOfNull s = .ok ((), t)) :
      ValueRun list object (0x6E :: s) .null t
  | yes {s t : Bytes} (read : restOfTrue s = .ok ((), t)) :
      ValueRun list object (0x74 :: s) (.boolean true) t
  | no {s t : Bytes} (read : restOfFalse s = .ok ((), t)) :
      ValueRun list object (0x66 :: s) (.boolean false) t
  | minus {s t : Bytes} {n : Number} (read : number true s = .ok (n, t)) :
      ValueRun list object (0x2D :: s) (.number n) t
  | digit {b : UInt8} {s t : Bytes} {n : Number} (digit : isDigit b)
      (read : number false (b :: s) = .ok (n, t)) : ValueRun list object (b :: s) (.number n) t
  | string {s t : Bytes} {written : String} (read : text s = .ok (written, t)) :
      ValueRun list object (0x22 :: s) (.string written) t
  | list {s t : Bytes} {v : Json} (read : list s = .ok (v, t)) :
      ValueRun list object (0x5B :: s) v t
  | object {s t : Bytes} {v : Json} (read : object s = .ok (v, t)) :
      ValueRun list object (0x7B :: s) v t

theorem ne_of_isDigit {b : UInt8} (digit : isDigit b) :
    b ≠ 0x6E ∧ b ≠ 0x74 ∧ b ≠ 0x66 ∧ b ≠ 0x2D := by
  refine ⟨?_, ?_, ?_, ?_⟩ <;> rintro rfl <;> exact absurd digit (by decide)

theorem valueWith_eq_ok {list object : Reader Json} {s t : Bytes} {v : Json} :
    valueWith list object s = .ok (v, t) ↔ ValueRun list object (dropSpace s) v t := by
  unfold valueWith
  cases dropSpace s with
  | nil =>
    dsimp only
    constructor
    · intro ok
      cases ok
    · intro run
      cases run
  | cons b rest =>
    dsimp only
    constructor
    · intro ok
      split at ok
      next null =>
        subst null
        obtain ⟨_, read, rfl⟩ := map_eq_ok.mp ok
        exact .null read
      next _ =>
      split at ok
      next yes =>
        subst yes
        obtain ⟨_, read, rfl⟩ := map_eq_ok.mp ok
        exact .yes read
      next _ =>
      split at ok
      next no =>
        subst no
        obtain ⟨_, read, rfl⟩ := map_eq_ok.mp ok
        exact .no read
      next _ =>
      split at ok
      next minus =>
        subst minus
        obtain ⟨_, read, rfl⟩ := map_eq_ok.mp ok
        exact .minus read
      next _ =>
      split at ok
      next digit =>
        obtain ⟨_, read, rfl⟩ := map_eq_ok.mp ok
        exact .digit digit read
      next _ =>
      split at ok
      next quote =>
        subst quote
        obtain ⟨_, read, rfl⟩ := map_eq_ok.mp ok
        exact .string read
      next _ =>
      split at ok
      next bracket =>
        subst bracket
        exact .list ok
      next _ =>
      split at ok
      next brace =>
        subst brace
        exact .object ok
      next _ => cases ok
    · intro run
      cases run with
      | null read => exact map_eq_ok.mpr ⟨(), read, rfl⟩
      | yes read => exact map_eq_ok.mpr ⟨(), read, rfl⟩
      | no read => exact map_eq_ok.mpr ⟨(), read, rfl⟩
      | minus read => exact map_eq_ok.mpr ⟨_, read, rfl⟩
      | digit digit read =>
        obtain ⟨null, yes, no, minus⟩ := ne_of_isDigit digit
        rw [if_neg null, if_neg yes, if_neg no, if_neg minus, if_pos digit]
        exact map_eq_ok.mpr ⟨_, read, rfl⟩
      | string read => exact map_eq_ok.mpr ⟨_, read, rfl⟩
      | list read => exact read
      | object read => exact read

theorem length_word {letters s t : Bytes} (ok : word letters s = .ok ((), t)) :
    t.length ≤ s.length := by
  induction letters generalizing s with
  | nil =>
    cases ok
    exact Nat.le_refl _
  | cons c more ih =>
    match s, ok with
    | b :: rest, ok =>
      simp only [word] at ok
      split at ok
      · exact Nat.le_succ_of_le (ih ok)
      · cases ok

theorem ValueRun.length {list object : Reader Json}
    (listShrinks : ∀ s v t, list s = .ok (v, t) → t.length < s.length)
    (objectShrinks : ∀ s v t, object s = .ok (v, t) → t.length < s.length) {s t : Bytes} {v : Json}
    (run : ValueRun list object s v t) : t.length < s.length := by
  cases run with
  | null read => exact Nat.lt_succ_of_le (length_word read)
  | yes read => exact Nat.lt_succ_of_le (length_word read)
  | no read => exact Nat.lt_succ_of_le (length_word read)
  | minus read => exact Nat.lt_succ_of_lt (number_suffix read).2
  | digit _ read => exact (number_suffix read).2
  | string read => exact Nat.lt_succ_of_lt (length_text read)
  | list read => exact Nat.lt_succ_of_lt (listShrinks _ _ _ read)
  | object read => exact Nat.lt_succ_of_lt (objectShrinks _ _ _ read)

theorem ItemsRun.length {α : Type} {item : Reader α}
    (shrinks : ∀ s a t, item s = .ok (a, t) → t.length < s.length) {first : Bool} {s t : Bytes}
    {all : List α} (run : ItemsRun item first s all t) : t.length < s.length := by
  induction run with
  | done closed => exact length_of_dropSpace closed
  | next another item _ ih =>
    have used := shrinks _ _ _ item
    have left := length_anotherItem another
    omega

/-- Reads the value of a member, and puts it before those read so far. -/
def entryStep {α : Type} (entry : String → Reader α) (name : String) (read : List (String × α)) :
    Reader (List (String × α)) := do
  colon
  return (name, ← entry name) :: read

/-- Reads the members of an object as trees, each with the reader of its name. -/
def objectWith (entry : String → Reader Json) : Reader Json := do
  let read ← members (entryStep entry) []
  advance
  return Json.object read.reverse

/-- How the members of an object are read as trees, up to behind the closing brace. -/
inductive EntriesRun (entry : String → Reader Json) :
    Bool → Bytes → List (String × Json) → Bytes → Prop where
  | done {first : Bool} {s t : Bytes} (closed : dropSpace s = 0x7D :: t) :
      EntriesRun entry first s [] t
  | next {first : Bool} {s t u v w rest : Bytes} {name : String} {value : Json}
      {later : List (String × Json)} (another : anotherMember first s = .ok (true, t))
      (named : text t = .ok (name, u)) (separated : dropSpace u = 0x3A :: v)
      (read : entry name v = .ok (value, w)) (run : EntriesRun entry false w later rest) :
      EntriesRun entry first s ((name, value) :: later) rest

section Objects

variable {entry : String → Reader Json}

theorem entryStep_eq_ok {α : Type} {entry : String → Reader α} {name : String}
    {read all : List (String × α)} {s t : Bytes} :
    entryStep entry name read s = .ok (all, t) ↔
      ∃ u v, dropSpace s = 0x3A :: u ∧ entry name u = .ok (v, t) ∧ all = (name, v) :: read := by
  unfold entryStep
  rw [bind_eq_ok]
  constructor
  · rintro ⟨_, u, separated, ok⟩
    obtain ⟨v, value, rfl⟩ := map_eq_ok.mp ok
    exact ⟨u, v, colon_eq_ok.mp separated, value, rfl⟩
  · rintro ⟨u, v, separated, value, rfl⟩
    exact ⟨(), u, colon_eq_ok.mpr separated, map_eq_ok.mpr ⟨v, value, rfl⟩⟩

theorem entriesRun_of_membersRun {first : Bool} {read all : List (String × Json)} {s t : Bytes}
    (run : MembersRun (entryStep entry) first read s all t) :
    ∃ later u, all = later.reverse ++ read ∧ t = 0x7D :: u ∧ EntriesRun entry first s later u := by
  induction run with
  | done closed => exact ⟨[], _, rfl, rfl, .done closed⟩
  | next another named read _ ih =>
    obtain ⟨u, v, separated, value, rfl⟩ := entryStep_eq_ok.mp read
    obtain ⟨later, w, rfl, rfl, run⟩ := ih
    refine ⟨(_, v) :: later, w, ?_, rfl, .next another named separated value run⟩
    rw [List.reverse_cons, List.append_assoc, List.singleton_append]

theorem membersRun_of_entriesRun {first : Bool} {later : List (String × Json)} {s t : Bytes}
    (run : EntriesRun entry first s later t) (read : List (String × Json)) :
    MembersRun (entryStep entry) first read s (later.reverse ++ read) (0x7D :: t) := by
  induction run generalizing read with
  | done closed => exact .done closed
  | next another named separated value _ ih =>
    rw [List.reverse_cons, List.append_assoc, List.singleton_append]
    exact .next another named (entryStep_eq_ok.mpr ⟨_, _, separated, value, rfl⟩) (ih _)

variable (shrinks : ∀ name s v t, entry name s = .ok (v, t) → t.length < s.length)
include shrinks

theorem length_entryStep {name : String} {read all : List (String × Json)} {s t : Bytes}
    (ok : entryStep entry name read s = .ok (all, t)) : t.length < s.length := by
  obtain ⟨u, v, separated, value, -⟩ := entryStep_eq_ok.mp ok
  exact Nat.lt_trans (shrinks _ _ _ _ value) (length_of_dropSpace separated)

theorem objectWith_eq_ok {s t : Bytes} {v : Json} :
    objectWith entry s = .ok (v, t) ↔ ∃ ms, v = .object ms ∧ EntriesRun entry true s ms t := by
  have stepShrinks : ∀ name read s all t, entryStep entry name read s = .ok (all, t) →
      t.length < s.length := fun _ _ _ _ _ ok => length_entryStep shrinks ok
  unfold objectWith
  rw [bind_eq_ok]
  constructor
  · rintro ⟨all, u, ok, closing⟩
    obtain ⟨_, w, ended, closing⟩ := bind_eq_ok.mp closing
    cases ended
    obtain ⟨rfl, rfl⟩ := pure_eq_ok.mp closing
    obtain ⟨ms, w, rfl, rfl, run⟩ := entriesRun_of_membersRun ((members_eq_ok stepShrinks).mp ok)
    refine ⟨ms, ?_, run⟩
    rw [List.append_nil, List.reverse_reverse]
  · rintro ⟨ms, rfl, run⟩
    refine ⟨ms.reverse, 0x7D :: t, (members_eq_ok stepShrinks).mpr ?_, ?_⟩
    · rw [← List.append_nil ms.reverse]
      exact membersRun_of_entriesRun run []
    · rw [List.reverse_reverse]
      rfl

theorem EntriesRun.length {first : Bool} {s t : Bytes} {ms : List (String × Json)}
    (run : EntriesRun entry first s ms t) : t.length < s.length := by
  induction run with
  | done closed => exact length_of_dropSpace closed
  | next another named separated read _ ih =>
    have left := length_anotherMember another
    have name := length_text named
    have colon := length_of_dropSpace separated
    have used := shrinks _ _ _ _ read
    omega

end Objects

theorem value_succ (room : Nat) : value (room + 1) =
    valueWith (do return Json.array (← items (value room))) (objectWith fun _ => value room) := rfl

/-- A list of values as a tree. -/
theorem list_eq_ok {item : Reader Json}
    (shrinks : ∀ s a t, item s = .ok (a, t) → t.length < s.length) {s t : Bytes} {v : Json} :
    (do return Json.array (← items item) : Reader Json) s = .ok (v, t) ↔
      ∃ vs, v = .array vs ∧ ItemsRun item true s vs t := by
  rw [map_eq_ok]
  simp only [items_eq_ok shrinks, and_comm]

theorem length_value {room : Nat} : ∀ s v t, value room s = .ok (v, t) → t.length < s.length := by
  induction room with
  | zero =>
    intro s v t ok
    have run := valueWith_eq_ok.mp ok
    have used := run.length (by rintro _ _ _ ⟨⟩) (by rintro _ _ _ ⟨⟩)
    exact Nat.lt_of_lt_of_le used (length_dropSpace s)
  | succ room ih =>
    intro s v t ok
    rw [value_succ] at ok
    have run := valueWith_eq_ok.mp ok
    refine Nat.lt_of_lt_of_le (run.length ?_ ?_) (length_dropSpace s)
    · intro s v t ok
      obtain ⟨vs, -, items⟩ := (list_eq_ok ih).mp ok
      exact items.length ih
    · intro s v t ok
      obtain ⟨ms, -, entries⟩ := (objectWith_eq_ok fun _ => ih).mp ok
      exact entries.length fun _ => ih

/-- A value is a scalar, or a container of values that have less room. -/
theorem run_of_value {room : Nat} {s t : Bytes} {v : Json} (read : value room s = .ok (v, t)) :
    ∃ list object, ValueRun list object (dropSpace s) v t ∧
      (∀ s v t, list s = .ok (v, t) → ∃ inner vs, room = inner + 1 ∧ v = .array vs ∧
        ItemsRun (value inner) true s vs t) ∧
      ∀ s v t, object s = .ok (v, t) → ∃ inner ms, room = inner + 1 ∧ v = .object ms ∧
        EntriesRun (fun _ => value inner) true s ms t := by
  cases room with
  | zero => exact ⟨_, _, valueWith_eq_ok.mp read, by rintro _ _ _ ⟨⟩, by rintro _ _ _ ⟨⟩⟩
  | succ room =>
    rw [value_succ] at read
    refine ⟨_, _, valueWith_eq_ok.mp read, fun s v t read => ?_, fun s v t read => ?_⟩
    · obtain ⟨vs, shape, run⟩ := (list_eq_ok length_value).mp read
      exact ⟨room, vs, rfl, shape, run⟩
    · obtain ⟨ms, shape, run⟩ := (objectWith_eq_ok fun _ => length_value).mp read
      exact ⟨room, ms, rfl, shape, run⟩

theorem ItemsRun.forall_mem {α : Type} {item : Reader α} {P : α → Prop}
    (each : ∀ s a t, item s = .ok (a, t) → P a) {first : Bool} {s t : Bytes} {all : List α}
    (run : ItemsRun item first s all t) : ∀ a ∈ all, P a := by
  induction run with
  | done _ => simp
  | next _ read _ ih => exact List.forall_mem_cons.mpr ⟨each _ _ _ read, ih⟩

theorem EntriesRun.forall_mem {entry : String → Reader Json} {P : Json → Prop}
    (each : ∀ name s v t, entry name s = .ok (v, t) → P v) {first : Bool} {s t : Bytes}
    {ms : List (String × Json)} (run : EntriesRun entry first s ms t) : ∀ m ∈ ms, P m.2 := by
  induction run with
  | done _ => simp
  | next _ _ _ read _ ih => exact List.forall_mem_cons.mpr ⟨each _ _ _ _ read, ih⟩

/-- What holds of all scalars that are read, and of all containers with less room inside, holds of
all values that are read. -/
theorem value_induction {motive : Nat → Json → Prop} (null : ∀ room, motive room .null)
    (boolean : ∀ room b, motive room (.boolean b))
    (number : ∀ room minus s n t, number minus s = .ok (n, t) → motive room (.number n))
    (string : ∀ room s, motive room (.string s))
    (array : ∀ room vs, (∀ v ∈ vs, motive room v) → motive (room + 1) (.array vs))
    (object : ∀ room ms, (∀ m ∈ ms, motive room m.2) → motive (room + 1) (.object ms))
    {room : Nat} : ∀ s v t, value room s = .ok (v, t) → motive room v := by
  induction room using Nat.strongRecOn with
  | _ room ih =>
    intro s v t read
    obtain ⟨_, _, run, lists, objects⟩ := run_of_value read
    generalize dropSpace s = front at run
    cases run with
    | null _ => exact null room
    | yes _ => exact boolean room true
    | no _ => exact boolean room false
    | minus read => exact number room true _ _ _ read
    | digit _ read => exact number room false _ _ _ read
    | string _ => exact string room _
    | list read =>
      obtain ⟨inner, vs, rfl, rfl, run⟩ := lists _ _ _ read
      exact array inner vs (run.forall_mem (ih inner (Nat.lt_succ_self inner)))
    | object read =>
      obtain ⟨inner, ms, rfl, rfl, run⟩ := objects _ _ _ read
      exact object inner ms (run.forall_mem fun _ => ih inner (Nat.lt_succ_self inner))

theorem value_dropSpace (room : Nat) (s : Bytes) : value room (dropSpace s) = value room s := by
  cases room <;> simp only [value, valueWith, dropSpace_dropSpace]

end QueueBench.Json.Reader
