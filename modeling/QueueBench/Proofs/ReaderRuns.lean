import Mathlib.Data.List.DropRight
import Mathlib.Data.List.TakeWhile
import QueueBench.Json.Shape

set_option autoImplicit false

/- Accepting runs of readers. The loops are bounded by the bytes they start from; here their runs
are described without the bound, which always suffices because every round uses up a byte. -/
namespace QueueBench.Json.Reader

variable {α β σ : Type}

theorem bind_eq_ok {x : Reader α} {f : α → Reader β} {s t : Bytes} {b : β} :
    (x >>= f) s = .ok (b, t) ↔ ∃ a u, x s = .ok (a, u) ∧ f a u = .ok (b, t) := by
  have unfolded : (x >>= f) s = (x s >>= fun r => f r.1 r.2) := rfl
  rw [unfolded]
  constructor
  · intro ok
    cases read : x s with
    | error p =>
      rw [read] at ok
      cases ok
    | ok r =>
      rw [read] at ok
      exact ⟨r.1, r.2, rfl, ok⟩
  · rintro ⟨a, u, read, ok⟩
    rw [read]
    exact ok

theorem bind_of_ok {x : Reader α} {f : α → Reader β} {s u : Bytes} {a : α}
    (read : x s = .ok (a, u)) : (x >>= f) s = f a u := by
  have unfolded : (x >>= f) s = (x s >>= fun r => f r.1 r.2) := rfl
  rw [unfolded, read]
  rfl

theorem bind_of_error {x : Reader α} {f : α → Reader β} {s : Bytes} {p : Problem}
    (failed : x s = .error p) : (x >>= f) s = .error p := by
  have unfolded : (x >>= f) s = (x s >>= fun r => f r.1 r.2) := rfl
  rw [unfolded, failed]
  rfl

theorem pure_eq_ok {a b : α} {s t : Bytes} :
    (pure a : Reader α) s = .ok (b, t) ↔ b = a ∧ t = s := by
  constructor
  · intro ok
    cases ok
    exact ⟨rfl, rfl⟩
  · rintro ⟨rfl, rfl⟩
    rfl

theorem map_eq_ok {x : Reader α} {f : α → β} {s t : Bytes} {b : β} :
    (do return f (← x) : Reader β) s = .ok (b, t) ↔ ∃ a, x s = .ok (a, t) ∧ b = f a := by
  rw [bind_eq_ok]
  constructor
  · rintro ⟨a, u, read, ok⟩
    obtain ⟨rfl, rfl⟩ := pure_eq_ok.mp ok
    exact ⟨a, read, rfl⟩
  · rintro ⟨a, read, rfl⟩
    exact ⟨a, t, read, rfl⟩

theorem run_eq_ok {reader : Reader α} {bytes : Bytes} {a : α} :
    run reader bytes = .ok a ↔ ∃ rest, reader bytes = .ok (a, rest) ∧ dropSpace rest = [] := by
  unfold run
  cases read : reader bytes with
  | error p => simp [bind, Except.bind]
  | ok r =>
    obtain ⟨b, rest⟩ := r
    dsimp only [bind, Except.bind]
    cases blank : dropSpace rest with
    | nil =>
      simp only [pure, Except.pure, Except.ok.injEq, Prod.mk.injEq]
      constructor
      · rintro rfl
        exact ⟨rest, ⟨rfl, rfl⟩, blank⟩
      · rintro ⟨_, ⟨rfl, rfl⟩, _⟩
        rfl
    | cons c more => simp [throw, throwThe, MonadExceptOf.throw, blank]

theorem dropSpace_dropSpace (s : Bytes) : dropSpace (dropSpace s) = dropSpace s :=
  List.dropWhile_idempotent isSpace s

theorem dropSpace_cons {b : UInt8} (solid : isSpace b = false) (s : Bytes) :
    dropSpace (b :: s) = b :: s :=
  List.dropWhile_cons_of_neg (by simp [solid])

theorem length_dropSpace (s : Bytes) : (dropSpace s).length ≤ s.length :=
  List.length_dropWhile_le _ s

theorem length_of_dropSpace {s t : Bytes} {b : UInt8} (next : dropSpace s = b :: t) :
    t.length < s.length := by
  have shorter := length_dropSpace s
  rw [next, List.length_cons] at shorter
  exact shorter

theorem anotherItem_false {first : Bool} {s t : Bytes} :
    anotherItem first s = .ok (false, t) ↔ ∃ u, dropSpace s = 0x5D :: u ∧ t = 0x5D :: u := by
  unfold anotherItem
  grind

theorem anotherItem_first {s t : Bytes} :
    anotherItem true s = .ok (true, t) ↔ ∃ b u, dropSpace s = b :: u ∧ b ≠ 0x5D ∧ t = b :: u := by
  unfold anotherItem
  grind

theorem anotherItem_later {s t : Bytes} :
    anotherItem false s = .ok (true, t) ↔
      ∃ u b v, dropSpace s = 0x2C :: u ∧ dropSpace u = b :: v ∧ b ≠ 0x5D ∧ t = b :: v := by
  unfold anotherItem
  grind

theorem anotherMember_false {first : Bool} {s t : Bytes} :
    anotherMember first s = .ok (false, t) ↔ ∃ u, dropSpace s = 0x7D :: u ∧ t = 0x7D :: u := by
  unfold anotherMember
  grind

theorem anotherMember_first {s t : Bytes} :
    anotherMember true s = .ok (true, t) ↔ dropSpace s = 0x22 :: t := by
  unfold anotherMember
  grind

theorem anotherMember_later {s t : Bytes} :
    anotherMember false s = .ok (true, t) ↔
      ∃ u, dropSpace s = 0x2C :: u ∧ dropSpace u = 0x22 :: t := by
  unfold anotherMember
  grind

theorem colon_eq_ok {s t : Bytes} : colon s = .ok ((), t) ↔ dropSpace s = 0x3A :: t := by
  unfold colon
  grind

/-- How a list is read item by item, from behind its bracket or behind an item to behind the closing
bracket. -/
inductive ItemsRun (item : Reader α) : Bool → Bytes → List α → Bytes → Prop where
  | done {first : Bool} {s t : Bytes} (closed : dropSpace s = 0x5D :: t) :
      ItemsRun item first s [] t
  | next {first : Bool} {s t u rest : Bytes} {a : α} {later : List α}
      (another : anotherItem first s = .ok (true, t)) (read : item t = .ok (a, u))
      (run : ItemsRun item false u later rest) : ItemsRun item first s (a :: later) rest

/-- How an object is read member by member, up to the closing brace. -/
inductive MembersRun (step : String → σ → Reader σ) : Bool → σ → Bytes → σ → Bytes → Prop where
  | done {first : Bool} {state : σ} {s t : Bytes} (closed : dropSpace s = 0x7D :: t) :
      MembersRun step first state s state (0x7D :: t)
  | next {first : Bool} {state state' final : σ} {s t u v rest : Bytes} {name : String}
      (another : anotherMember first s = .ok (true, t)) (named : text t = .ok (name, u))
      (read : step name state u = .ok (state', v))
      (run : MembersRun step false state' v final rest) :
      MembersRun step first state s final rest

theorem length_anotherItem {first : Bool} {s t : Bytes}
    (another : anotherItem first s = .ok (true, t)) : t.length ≤ s.length := by
  cases first with
  | true =>
    obtain ⟨b, u, next, _, rfl⟩ := anotherItem_first.mp another
    rw [← next]
    exact length_dropSpace s
  | false =>
    obtain ⟨u, b, v, comma, next, _, rfl⟩ := anotherItem_later.mp another
    have below := length_of_dropSpace comma
    have rest := length_dropSpace u
    rw [next] at rest
    omega

theorem length_anotherMember {first : Bool} {s t : Bytes}
    (another : anotherMember first s = .ok (true, t)) : t.length < s.length := by
  cases first with
  | true => exact length_of_dropSpace (anotherMember_first.mp another)
  | false =>
    obtain ⟨u, comma, next⟩ := anotherMember_later.mp another
    exact Nat.lt_trans (length_of_dropSpace next) (length_of_dropSpace comma)

theorem run_of_itemsFrom {item : Reader α} {bound : Bytes} {first : Bool} {read all : List α}
    {s t : Bytes} (ok : itemsFrom item bound first read s = .ok (all, t)) :
    ∃ later u, all = read.reverse ++ later ∧ t = 0x5D :: u ∧ ItemsRun item first s later u := by
  induction bound generalizing first read s with
  | nil => cases ok
  | cons _ bound ih =>
    rw [itemsFrom, bind_eq_ok] at ok
    obtain ⟨more, u, another, ok⟩ := ok
    cases more with
    | false =>
      obtain ⟨rfl, rfl⟩ := pure_eq_ok.mp ok
      obtain ⟨v, closed, rfl⟩ := anotherItem_false.mp another
      exact ⟨[], v, (List.append_nil _).symm, rfl, .done closed⟩
    | true =>
      obtain ⟨a, v, item, ok⟩ := bind_eq_ok.mp ok
      obtain ⟨later, w, rfl, rfl, run⟩ := ih ok
      refine ⟨a :: later, w, ?_, rfl, .next another item run⟩
      rw [List.reverse_cons, List.append_assoc, List.singleton_append]

theorem itemsFrom_of_run {item : Reader α}
    (shrinks : ∀ s a t, item s = .ok (a, t) → t.length < s.length) {bound : Bytes} {first : Bool}
    {read later : List α} {s t : Bytes} (run : ItemsRun item first s later t)
    (enough : s.length ≤ bound.length) :
    itemsFrom item bound first read s = .ok (read.reverse ++ later, 0x5D :: t) := by
  induction run generalizing bound read with
  | done closed =>
    have short := length_of_dropSpace closed
    cases bound with
    | nil => exact absurd enough (Nat.not_le_of_lt (Nat.zero_lt_of_lt short))
    | cons _ bound =>
      rw [itemsFrom, bind_of_ok (anotherItem_false.mpr ⟨_, closed, rfl⟩), List.append_nil]
      rfl
  | next another item _ ih =>
    have used := shrinks _ _ _ item
    have left := length_anotherItem another
    cases bound with
    | nil => exact absurd enough (Nat.not_le_of_lt (by simp only [List.length_nil]; omega))
    | cons _ bound =>
      rw [itemsFrom, bind_of_ok another, if_pos rfl, bind_of_ok item, ih ?_]
      · rw [List.reverse_cons, List.append_assoc, List.singleton_append]
      · rw [List.length_cons] at enough
        omega

theorem items_eq_ok {item : Reader α}
    (shrinks : ∀ s a t, item s = .ok (a, t) → t.length < s.length) {all : List α} {s t : Bytes} :
    items item s = .ok (all, t) ↔ ItemsRun item true s all t := by
  unfold items
  rw [bind_eq_ok]
  constructor
  · rintro ⟨all', u, ok, closing⟩
    obtain ⟨_, v, ended, closing⟩ := bind_eq_ok.mp closing
    cases ended
    obtain ⟨rfl, rfl⟩ := pure_eq_ok.mp closing
    obtain ⟨later, w, rfl, rfl, run⟩ := run_of_itemsFrom ok
    exact run
  · intro run
    exact ⟨all, 0x5D :: t, itemsFrom_of_run shrinks run (Nat.le_refl _), rfl⟩

/-- How the inside of a string is read, from the bytes so far in reverse. -/
inductive TextRun : Bytes → Bytes → String → Bytes → Prop where
  | quote {read t : Bytes} {cs : List Char} (decoded : Text.Utf8.decode? read.reverse = some cs) :
      TextRun read (0x22 :: t) (String.ofList cs) t
  | escape {read s bytes u t : Bytes} {written : String} (escaped : escape s = .ok (bytes, u))
      (run : TextRun (bytes.reverse ++ read) u written t) : TextRun read (0x5C :: s) written t
  | plain {read s t : Bytes} {b : UInt8} {written : String} (quote : b ≠ 0x22)
      (backslash : b ≠ 0x5C) (printable : ¬ b < 0x20) (run : TextRun (b :: read) s written t) :
      TextRun read (b :: s) written t

theorem length_hexUnit {s t : Bytes} {n : Nat} (ok : hexUnit s = .ok (n, t)) :
    t.length < s.length := by
  unfold hexUnit at ok
  grind

theorem length_trailingUnit {s t : Bytes} {n : Nat} (ok : trailingUnit s = .ok (n, t)) :
    t.length < s.length := by
  match s, ok with
  | b :: c :: rest, ok =>
    simp only [trailingUnit] at ok
    split at ok
    case isFalse => cases ok
    case isTrue =>
      cases unit : hexUnit rest with
      | error p =>
        rw [unit] at ok
        cases ok
      | ok r =>
        have inside := length_hexUnit unit
        simp only [unit, bind, Except.bind] at ok
        split at ok
        · cases ok
        · cases ok
          simp only [List.length_cons]
          omega

theorem length_unicodeEscape {s t : Bytes} {c : Char} (ok : unicodeEscape s = .ok (c, t)) :
    t.length < s.length := by
  unfold unicodeEscape at ok
  obtain ⟨n, u, unit, ok⟩ := bind_eq_ok.mp ok
  have first := length_hexUnit unit
  split at ok
  · cases ok
  split at ok
  · obtain ⟨m, v, second, ok⟩ := bind_eq_ok.mp ok
    obtain ⟨_, rfl⟩ := pure_eq_ok.mp ok
    exact Nat.lt_trans (length_trailingUnit second) first
  · obtain ⟨_, rfl⟩ := pure_eq_ok.mp ok
    exact first

theorem length_escape {s t bytes : Bytes} (ok : escape s = .ok (bytes, t)) :
    t.length < s.length := by
  match s, ok with
  | b :: rest, ok =>
    simp only [escape] at ok
    split at ok
    · cases ok
      exact Nat.lt_succ_self _
    · split at ok
      case isFalse => cases ok
      case isTrue =>
        cases char : unicodeEscape rest with
        | error p =>
          rw [char] at ok
          cases ok
        | ok r =>
          have inside := length_unicodeEscape char
          rw [char] at ok
          cases ok
          exact Nat.lt_succ_of_lt inside

theorem run_of_textFrom {bound read s t : Bytes} {written : String}
    (ok : textFrom bound read s = .ok (written, t)) : TextRun read s written t := by
  induction bound generalizing read s with
  | nil => cases ok
  | cons _ bound ih =>
    match s, ok with
    | b :: rest, ok =>
      simp only [textFrom] at ok
      split at ok
      case isTrue quote =>
        subst quote
        split at ok
        case h_1 cs decoded =>
          cases ok
          exact .quote decoded
        case h_2 => cases ok
      case isFalse quote =>
        split at ok
        case isTrue backslash =>
          subst backslash
          cases escaped : escape rest with
          | error p =>
            rw [escaped] at ok
            cases ok
          | ok r =>
            rw [escaped] at ok
            exact .escape escaped (ih ok)
        case isFalse backslash =>
          split at ok
          · cases ok
          case isFalse printable => exact .plain quote backslash printable (ih ok)

theorem textFrom_of_run {bound read s t : Bytes} {written : String} (run : TextRun read s written t)
    (enough : s.length ≤ bound.length) : textFrom bound read s = .ok (written, t) := by
  induction run generalizing bound with
  | quote decoded =>
    cases bound with
    | nil => cases enough
    | cons _ bound => simp only [textFrom, ↓reduceIte, decoded]
  | escape escaped _ ih =>
    have used := length_escape escaped
    cases bound with
    | nil => cases enough
    | cons _ bound =>
      have onward := @ih bound (by simp only [List.length_cons] at enough; omega)
      simp only [textFrom, escaped, onward, bind, Except.bind]
      rfl
  | plain quote backslash printable _ ih =>
    cases bound with
    | nil => cases enough
    | cons _ bound =>
      have onward := @ih bound (Nat.le_of_succ_le_succ enough)
      simp only [textFrom, quote, backslash, printable, ↓reduceIte, onward]

theorem text_eq_ok {s t : Bytes} {written : String} :
    text s = .ok (written, t) ↔ TextRun [] s written t :=
  ⟨run_of_textFrom, fun run => textFrom_of_run run (Nat.le_refl _)⟩

theorem TextRun.length {read s t : Bytes} {written : String} (run : TextRun read s written t) :
    t.length < s.length := by
  induction run with
  | quote _ => exact Nat.lt_succ_self _
  | escape escaped _ ih => exact Nat.lt_succ_of_lt (Nat.lt_trans ih (length_escape escaped))
  | plain _ _ _ _ ih => exact Nat.lt_succ_of_lt ih

theorem length_text {s t : Bytes} {written : String} (ok : text s = .ok (written, t)) :
    t.length < s.length := (text_eq_ok.mp ok).length

theorem run_of_membersFrom {step : String → σ → Reader σ} {bound : Bytes} {first : Bool}
    {state final : σ} {s t : Bytes} (ok : membersFrom step bound first state s = .ok (final, t)) :
    MembersRun step first state s final t := by
  induction bound generalizing first state s with
  | nil => cases ok
  | cons _ bound ih =>
    rw [membersFrom, bind_eq_ok] at ok
    obtain ⟨more, u, another, ok⟩ := ok
    cases more with
    | false =>
      obtain ⟨rfl, rfl⟩ := pure_eq_ok.mp ok
      obtain ⟨v, closed, rfl⟩ := anotherMember_false.mp another
      exact .done closed
    | true =>
      obtain ⟨name, v, named, ok⟩ := bind_eq_ok.mp ok
      obtain ⟨state', w, read, ok⟩ := bind_eq_ok.mp ok
      exact .next another named read (ih ok)

theorem membersFrom_of_run {step : String → σ → Reader σ}
    (shrinks : ∀ name state s state' t, step name state s = .ok (state', t) → t.length < s.length)
    {bound : Bytes} {first : Bool} {state final : σ} {s t : Bytes}
    (run : MembersRun step first state s final t) (enough : s.length ≤ bound.length) :
    membersFrom step bound first state s = .ok (final, t) := by
  induction run generalizing bound with
  | done closed =>
    have short := length_of_dropSpace closed
    cases bound with
    | nil => exact absurd enough (Nat.not_le_of_lt (Nat.zero_lt_of_lt short))
    | cons _ bound =>
      rw [membersFrom, bind_of_ok (anotherMember_false.mpr ⟨_, closed, rfl⟩)]
      rfl
  | next another named read _ ih =>
    have left := length_anotherMember another
    have name := length_text named
    have used := shrinks _ _ _ _ _ read
    cases bound with
    | nil => exact absurd enough (Nat.not_le_of_lt (by simp only [List.length_nil]; omega))
    | cons _ bound =>
      rw [membersFrom, bind_of_ok another, if_pos rfl, bind_of_ok named, bind_of_ok read]
      refine ih ?_
      rw [List.length_cons] at enough
      omega

theorem members_eq_ok {step : String → σ → Reader σ}
    (shrinks : ∀ name state s state' t, step name state s = .ok (state', t) → t.length < s.length)
    {state final : σ} {s t : Bytes} :
    members step state s = .ok (final, t) ↔ MembersRun step true state s final t :=
  ⟨run_of_membersFrom, fun run => membersFrom_of_run shrinks run (Nat.le_refl _)⟩

end QueueBench.Json.Reader
