import QueueBench.Proofs.ValueRuns

set_option autoImplicit false

/- Passing over a value against reading it: what can be read as a tree can be passed over, and both
end at the same byte. The machine that passes over values keeps the open containers on a stack, and
what it still needs of the text is followed here from round to round. -/
namespace QueueBench.Json.Reader

def skipExponent : Reader Unit := fun s =>
  match s with
  | [] => .ok ((), [])
  | mark :: rest =>
    if mark = 0x65 ∨ mark = 0x45 then
      if ((sign rest).2.takeWhile isDigit).isEmpty then .error .invalidNumber
      else .ok ((), (sign rest).2.dropWhile isDigit)
    else .ok ((), s)

theorem skipExponent_of_exponent {s t : Bytes} {power : Option Int}
    (ok : exponent s = .ok (power, t)) : skipExponent s = .ok ((), t) := by
  rcases exponent_eq_ok.mp ok with ⟨noMark, -, rfl⟩ | ⟨b, r, rfl, opened, some, -, rfl⟩
  · cases t with
    | nil => rfl
    | cons b r => exact if_neg (noMark b rfl)
  · exact (if_pos opened).trans (if_neg fun empty => some (List.isEmpty_iff.mp empty))

theorem skipNumber_of_number {minus : Bool} {s t : Bytes} {n : Number}
    (ok : number minus s = .ok (n, t)) : skipNumber s = .ok ((), t) := by
  obtain ⟨ds, u, fraction, v, power, integer, point, mark, -, -⟩ := number_eq_ok.mp ok
  obtain ⟨rfl, rfl, nonempty, single⟩ := whole_eq_ok.mp integer
  have last := skipExponent_of_exponent mark
  unfold skipNumber
  split
  next empty => exact absurd empty nonempty
  next d more digits =>
    have bare : ¬ (d = 0x30 ∧ ¬ more.isEmpty) := by
      rintro ⟨zero, others⟩
      refine single ⟨?_, ?_⟩
      · obtain ⟨rest, shape⟩ := List.takeWhile_prefix (p := isDigit) (l := s)
        rw [← shape, digits, ← zero]
        rfl
      · rw [digits, List.length_cons]
        exact Nat.succ_lt_succ (List.length_pos_iff.mpr fun none => others (by rw [none]; rfl))
    rw [if_neg bare]
    dsimp only
    rcases places_eq_ok.mp point with ⟨noPoint, -, rfl⟩ | ⟨b, r, shape, rfl, some, -, rfl⟩
    · split
      next rest shape => exact absurd rfl (noPoint 0x2E (by rw [shape]; rfl))
      next => exact last
    · have digits : ¬ (r.takeWhile isDigit).isEmpty := fun empty => some (List.isEmpty_iff.mp empty)
      simp only [shape, digits]
      exact last

/-- A character beyond the basic plane is two escapes, of which only the first is passed over. -/
theorem hexUnit_of_unicodeEscape {s t : Bytes} {c : Char} (ok : unicodeEscape s = .ok (c, t)) :
    ∃ n w, hexUnit s = .ok (n, w) ∧
      (w = t ∨ ∃ m r, w = 0x5C :: 0x75 :: r ∧ hexUnit r = .ok (m, t)) := by
  unfold unicodeEscape at ok
  obtain ⟨n, w, unit, ok⟩ := bind_eq_ok.mp ok
  refine ⟨n, w, unit, ?_⟩
  split at ok
  · cases ok
  split at ok
  · obtain ⟨m, v, second, ok⟩ := bind_eq_ok.mp ok
    obtain ⟨-, rfl⟩ := pure_eq_ok.mp ok
    right
    match w, second with
    | b :: c :: r, second =>
      simp only [trailingUnit] at second
      split at second
      case isFalse => cases second
      case isTrue opened =>
        obtain ⟨rfl, rfl⟩ := opened
        cases trailing : hexUnit r with
        | error p =>
          rw [trailing] at second
          cases second
        | ok found =>
          simp only [trailing, bind, Except.bind] at second
          split at second
          · cases second
          · cases second
            exact ⟨_, r, rfl, trailing⟩
  · obtain ⟨-, rfl⟩ := pure_eq_ok.mp ok
    exact .inl rfl

theorem skipEscape_unicode {s t : Bytes} {n : Nat} (unit : hexUnit s = .ok (n, t)) :
    skipEscape (0x75 :: s) = .ok ((), t) := by
  have long : shortEscape? 0x75 = none := by decide
  simp only [skipEscape, long, ↓reduceIte, unit]
  rfl

theorem skipEscape_of_escape {s bytes u : Bytes} (ok : escape s = .ok (bytes, u)) :
    skipEscape s = .ok ((), u) ∨
      ∃ w, skipEscape s = .ok ((), 0x5C :: w) ∧ skipEscape w = .ok ((), u) := by
  match s, ok with
  | b :: rest, ok =>
    simp only [escape] at ok
    split at ok
    next plain short =>
      cases ok
      simp only [skipEscape, short, true_or]
    next =>
      split at ok
      case isFalse => cases ok
      case isTrue letter =>
        subst letter
        cases char : unicodeEscape rest with
        | error p =>
          rw [char] at ok
          cases ok
        | ok r =>
          rw [char] at ok
          cases ok
          obtain ⟨n, w, unit, rfl | ⟨m, v, rfl, second⟩⟩ := hexUnit_of_unicodeEscape char
          · exact .inl (skipEscape_unicode unit)
          · exact .inr ⟨0x75 :: v, skipEscape_unicode unit, skipEscape_unicode second⟩

theorem skipTextFrom_escape {s u t bound : Bytes} (skipped : skipEscape s = .ok ((), u))
    (onward : skipTextFrom bound u = .ok ((), t)) (b : UInt8) :
    skipTextFrom (b :: bound) (0x5C :: s) = .ok ((), t) := by
  simp only [skipTextFrom, skipped, bind, Except.bind, onward]
  rfl

theorem length_skipEscape {s t : Bytes} (ok : skipEscape s = .ok ((), t)) :
    t.length < s.length := by
  match s, ok with
  | b :: rest, ok =>
    simp only [skipEscape] at ok
    split at ok
    · cases ok
      exact Nat.lt_succ_self _
    · split at ok
      case isFalse => cases ok
      case isTrue =>
        cases unit : hexUnit rest with
        | error p =>
          rw [unit] at ok
          cases ok
        | ok r =>
          rw [unit] at ok
          cases ok
          exact Nat.lt_succ_of_lt (length_hexUnit unit)

theorem skipTextFrom_of_run {read s t bound : Bytes} {written : String}
    (run : TextRun read s written t) (enough : s.length ≤ bound.length) :
    skipTextFrom bound s = .ok ((), t) := by
  induction run generalizing bound with
  | quote _ =>
    cases bound with
    | nil => cases enough
    | cons _ bound => rfl
  | escape escaped _ ih =>
    rename_i s _ u t _ _
    cases bound with
    | nil => cases enough
    | cons _ bound =>
      have room : s.length ≤ bound.length := Nat.le_of_succ_le_succ enough
      -- two escapes that are read as one letter are passed over in two rounds
      rcases skipEscape_of_escape escaped with skipped | ⟨w, first, second⟩
      · have used := length_skipEscape skipped
        exact skipTextFrom_escape skipped (ih (by omega)) _
      · have used := length_skipEscape first
        have used' := length_skipEscape second
        rw [List.length_cons] at used
        cases bound with
        | nil => exact absurd room (Nat.not_le_of_lt (Nat.zero_lt_of_lt used))
        | cons _ bound =>
          have onward := @ih bound (by rw [List.length_cons] at room; omega)
          exact skipTextFrom_escape first (skipTextFrom_escape second onward _) _
  | plain quote backslash printable _ ih =>
    cases bound with
    | nil => cases enough
    | cons _ bound =>
      have onward := @ih bound (Nat.le_of_succ_le_succ enough)
      simp only [skipTextFrom, quote, backslash, printable, ↓reduceIte, onward]

theorem skipText_of_text {s t : Bytes} {written : String} (ok : text s = .ok (written, t)) :
    skipText s = .ok ((), t) :=
  skipTextFrom_of_run (text_eq_ok.mp ok) (Nat.le_refl _)

/-- From the outcome of a round, the machine goes on until no container is open. -/
inductive Closes : Except Problem (List Frame × Bytes) → Bytes → Prop where
  | done {rest : Bytes} : Closes (.ok ([], rest)) rest
  | round {frame : Frame} {outer : List Frame} {s rest : Bytes}
      (next : Closes (skipOpening (frame :: outer) s) rest) : Closes (.ok (frame :: outer, s)) rest

theorem skipOpening_dropSpace (stack : List Frame) (s : Bytes) :
    skipOpening stack (dropSpace s) = skipOpening stack s := by
  simp only [skipOpening, dropSpace_dropSpace]

theorem length_skipExponent {s t : Bytes} (ok : skipExponent s = .ok ((), t)) :
    t.length ≤ s.length := by
  unfold skipExponent at ok
  split at ok
  · cases ok
    exact Nat.le_refl _
  · split at ok
    · split at ok
      · cases ok
      · cases ok
        exact (((List.dropWhile_suffix _).trans (sign_suffix _)).trans
          (List.suffix_cons _ _)).length_le
    · cases ok
      exact Nat.le_refl _

theorem length_skipNumber {s t : Bytes} (ok : skipNumber s = .ok ((), t)) :
    t.length < s.length := by
  unfold skipNumber at ok
  split at ok
  · cases ok
  next d more digits =>
  have used := length_dropWhile_digits (digits ▸ List.cons_ne_nil d more)
  split at ok
  · cases ok
  dsimp only at ok
  split at ok
  next rest shape =>
    split at ok
    · cases ok
    · have left := length_skipExponent ok
      have point := (List.dropWhile_suffix (l := rest) isDigit).length_le
      rw [shape, List.length_cons] at used
      omega
  next => exact Nat.lt_of_le_of_lt (length_skipExponent ok) used

theorem length_skipTextFrom {bound s t : Bytes} (ok : skipTextFrom bound s = .ok ((), t)) :
    t.length < s.length := by
  induction bound generalizing s with
  | nil => cases ok
  | cons _ bound ih =>
    match s, ok with
    | b :: rest, ok =>
      simp only [skipTextFrom] at ok
      split at ok
      · cases ok
        exact Nat.lt_succ_self _
      split at ok
      · cases escaped : skipEscape rest with
        | error p =>
          rw [escaped] at ok
          cases ok
        | ok r =>
          rw [escaped] at ok
          exact Nat.lt_succ_of_lt (Nat.lt_trans (ih ok) (length_skipEscape escaped))
      split at ok
      · cases ok
      · exact Nat.lt_succ_of_lt (ih ok)

theorem length_enter {frame : Frame} {s t : Bytes} (ok : frame.enter s = .ok ((), t)) :
    t.length ≤ s.length := by
  cases frame with
  | list =>
    obtain ⟨-, rfl⟩ := pure_eq_ok.mp ok
    exact Nat.le_refl _
  | object =>
    simp only [Frame.enter] at ok
    split at ok
    · cases ok
    next b rest next =>
    split at ok
    case isFalse => cases ok
    case isTrue =>
      obtain ⟨_, u, name, ok⟩ := bind_eq_ok.mp ok
      have front := length_of_dropSpace next
      have used := length_skipTextFrom name
      have colon := length_of_dropSpace (colon_eq_ok.mp ok)
      omega

theorem enter_eq_ok {frame : Frame} {outer still : List Frame} {s t : Bytes} :
    (do frame.enter; return frame :: outer : Reader (List Frame)) s = .ok (still, t) ↔
      frame.enter s = .ok ((), t) ∧ still = frame :: outer := by
  rw [map_eq_ok]
  exact ⟨fun ⟨_, entered, same⟩ => ⟨entered, same⟩, fun ⟨entered, same⟩ => ⟨(), entered, same⟩⟩

theorem length_afterSkipped {stack still : List Frame} {s t : Bytes}
    (ok : afterSkipped stack s = .ok (still, t)) : t.length ≤ s.length := by
  induction stack generalizing s with
  | nil =>
    obtain ⟨-, rfl⟩ := pure_eq_ok.mp ok
    exact Nat.le_refl _
  | cons frame outer ih =>
    simp only [afterSkipped] at ok
    split at ok
    · cases ok
    next b rest next =>
    have front := length_of_dropSpace next
    split at ok
    · have left := length_enter (enter_eq_ok.mp ok).1
      omega
    split at ok
    · have left := ih ok
      omega
    · cases ok

theorem length_thenAfter {x : Reader Unit} {stack still : List Frame} {s t : Bytes} {n : Nat}
    (uses : ∀ u, x s = .ok ((), u) → u.length ≤ n)
    (ok : (do x; afterSkipped stack : Reader (List Frame)) s = .ok (still, t)) : t.length ≤ n := by
  obtain ⟨_, u, passed, ok⟩ := bind_eq_ok.mp ok
  exact Nat.le_trans (length_afterSkipped ok) (uses u passed)

/-- A container behind its opening bracket. -/
def skipInside (frame : Frame) (stack : List Frame) : Reader (List Frame) := fun s =>
  match dropSpace s with
  | [] => .error frame.open
  | b :: rest =>
    if b = frame.closing then afterSkipped stack rest
    else (do frame.enter; return frame :: stack : Reader (List Frame)) (b :: rest)

theorem length_skipInside {frame : Frame} {stack still : List Frame} {s t : Bytes}
    (ok : skipInside frame stack s = .ok (still, t)) : t.length ≤ s.length := by
  have whole := length_dropSpace s
  unfold skipInside at ok
  split at ok
  · cases ok
  next b rest next =>
  rw [next] at whole
  split at ok
  · have left := length_afterSkipped ok
    rw [List.length_cons] at whole
    omega
  · exact Nat.le_trans (length_enter (enter_eq_ok.mp ok).1) whole

theorem length_skipOpening {stack still : List Frame} {s t : Bytes}
    (ok : skipOpening stack s = .ok (still, t)) : t.length < s.length := by
  unfold skipOpening at ok
  dsimp only at ok
  split at ok
  · cases ok
  next b rest next =>
  refine Nat.lt_of_le_of_lt ?_ (length_of_dropSpace next)
  split at ok
  · exact length_thenAfter (fun _ => length_word) ok
  split at ok
  · exact length_thenAfter (fun _ => length_word) ok
  split at ok
  · exact length_thenAfter (fun _ => length_word) ok
  split at ok
  · exact length_thenAfter (fun _ passed => Nat.le_of_lt (length_skipNumber passed)) ok
  split at ok
  · have shorter {u : Bytes} (passed : skipNumber (b :: rest) = .ok ((), u)) :
        u.length ≤ rest.length := Nat.le_of_lt_succ (length_skipNumber passed)
    exact length_thenAfter (fun _ => shorter) ok
  split at ok
  · exact length_thenAfter (fun _ passed => Nat.le_of_lt (length_skipTextFrom passed)) ok
  split at ok
  · exact length_skipInside (show skipInside .list stack rest = _ from ok)
  split at ok
  · exact length_skipInside (show skipInside .object stack rest = _ from ok)
  · cases ok

theorem skipFrom_of_closes {stack : List Frame} {s rest bound : Bytes}
    (closes : Closes (skipOpening stack s) rest) (enough : s.length ≤ bound.length) :
    skipFrom bound stack s = .ok ((), rest) := by
  -- the bound outlasts the rounds, for each round uses up a byte
  generalize outcome : skipOpening stack s = r at closes
  induction closes generalizing stack s bound with
  | done =>
    have used := length_skipOpening outcome
    cases bound with
    | nil => exact absurd enough (Nat.not_le_of_lt (Nat.zero_lt_of_lt used))
    | cons _ bound =>
      rw [skipFrom, bind_of_ok outcome]
      rfl
  | round _ ih =>
    have used := length_skipOpening outcome
    cases bound with
    | nil => exact absurd enough (Nat.not_le_of_lt (Nat.zero_lt_of_lt used))
    | cons _ bound =>
      rw [skipFrom, bind_of_ok outcome]
      exact ih (by rw [List.length_cons] at enough; omega) rfl

theorem afterSkipped_closing {frame : Frame} {stack : List Frame} {s t : Bytes}
    (closed : dropSpace s = frame.closing :: t) :
    afterSkipped (frame :: stack) s = afterSkipped stack t := by
  have noComma : frame.closing ≠ 0x2C := by cases frame <;> decide
  simp only [afterSkipped, closed, noComma, ↓reduceIte]

theorem afterSkipped_comma {frame : Frame} {stack : List Frame} {s t u : Bytes}
    (comma : dropSpace s = 0x2C :: t) (entered : frame.enter t = .ok ((), u)) :
    afterSkipped (frame :: stack) s = .ok (frame :: stack, u) := by
  simp only [afterSkipped, comma, ↓reduceIte]
  exact enter_eq_ok.mpr ⟨entered, rfl⟩

theorem enter_list (s : Bytes) : Frame.list.enter s = .ok ((), s) := rfl

theorem enter_object {s t u v : Bytes} {name : String} (next : dropSpace s = 0x22 :: t)
    (named : text t = .ok (name, u)) (separated : dropSpace u = 0x3A :: v) :
    Frame.object.enter s = .ok ((), v) := by
  simp only [Frame.enter, next, ↓reduceIte]
  rw [bind_of_ok (skipText_of_text named)]
  exact colon_eq_ok.mpr separated

section Containers

variable {room : Nat} {stack : List Frame} {rest : Bytes}
  (goesOn : ∀ stack rest s v t, value room s = .ok (v, t) → Closes (afterSkipped stack t) rest →
    Closes (skipOpening stack s) rest)
include goesOn

theorem closes_items {s t : Bytes} {vs : List Json} (run : ItemsRun (value room) false s vs t)
    (after : Closes (afterSkipped stack t) rest) :
    Closes (afterSkipped (.list :: stack) s) rest := by
  generalize later : false = first at run
  induction run with
  | done closed =>
    rw [@afterSkipped_closing .list _ _ _ closed]
    exact after
  | next another read _ ih =>
    subst later
    obtain ⟨u, b, v, comma, next, -, rfl⟩ := anotherItem_later.mp another
    rw [afterSkipped_comma comma (enter_list u)]
    refine .round ?_
    rw [← skipOpening_dropSpace, next]
    exact goesOn _ _ _ _ _ read (ih after rfl)

theorem closes_entries {s t : Bytes} {ms : List (String × Json)}
    (run : EntriesRun (fun _ => value room) false s ms t)
    (after : Closes (afterSkipped stack t) rest) :
    Closes (afterSkipped (.object :: stack) s) rest := by
  generalize later : false = first at run
  induction run with
  | done closed =>
    rw [@afterSkipped_closing .object _ _ _ closed]
    exact after
  | next another named separated read _ ih =>
    subst later
    obtain ⟨u, comma, next⟩ := anotherMember_later.mp another
    rw [afterSkipped_comma comma (enter_object next named separated)]
    exact .round (goesOn _ _ _ _ _ read (ih after rfl))

theorem closes_list {s t : Bytes} {vs : List Json} (run : ItemsRun (value room) true s vs t)
    (after : Closes (afterSkipped stack t) rest) : Closes (skipInside .list stack s) rest := by
  cases run with
  | done closed =>
    simp only [skipInside, closed, Frame.closing, ↓reduceIte]
    exact after
  | next another read run =>
    obtain ⟨b, u, next, solid, rfl⟩ := anotherItem_first.mp another
    simp only [skipInside, next, Frame.closing, solid, ↓reduceIte]
    rw [enter_eq_ok.mpr ⟨enter_list _, rfl⟩]
    exact .round (goesOn _ _ _ _ _ read (closes_items goesOn run after))

theorem closes_object {s t : Bytes} {ms : List (String × Json)}
    (run : EntriesRun (fun _ => value room) true s ms t)
    (after : Closes (afterSkipped stack t) rest) : Closes (skipInside .object stack s) rest := by
  cases run with
  | done closed =>
    simp only [skipInside, closed, Frame.closing, ↓reduceIte]
    exact after
  | next another named separated read run =>
    have next := anotherMember_first.mp another
    have open' : (0x22 : UInt8) ≠ Frame.object.closing := by decide
    simp only [skipInside, next, open', ↓reduceIte]
    rw [enter_eq_ok.mpr ⟨enter_object (dropSpace_cons (by decide) _) named separated, rfl⟩]
    exact .round (goesOn _ _ _ _ _ read (closes_entries goesOn run after))

end Containers

theorem closes_of_run {list object : Reader Json} {stack : List Frame} {s t rest : Bytes} {v : Json}
    (lists : ∀ s v t, list s = .ok (v, t) → Closes (afterSkipped stack t) rest →
      Closes (skipInside .list stack s) rest)
    (objects : ∀ s v t, object s = .ok (v, t) → Closes (afterSkipped stack t) rest →
      Closes (skipInside .object stack s) rest)
    (run : ValueRun list object (dropSpace s) v t) (after : Closes (afterSkipped stack t) rest) :
    Closes (skipOpening stack s) rest := by
  unfold skipOpening
  generalize dropSpace s = front at run
  cases run with
  | null read =>
    dsimp only
    rw [if_pos rfl, bind_of_ok read]
    exact after
  | yes read =>
    dsimp only
    rw [if_neg (by decide), if_pos rfl, bind_of_ok read]
    exact after
  | no read =>
    dsimp only
    rw [if_neg (by decide), if_neg (by decide), if_pos rfl, bind_of_ok read]
    exact after
  | minus read =>
    dsimp only
    rw [if_neg (by decide), if_neg (by decide), if_neg (by decide), if_pos rfl,
      bind_of_ok (skipNumber_of_number read)]
    exact after
  | digit digit read =>
    obtain ⟨null, yes, no, minus⟩ := ne_of_isDigit digit
    dsimp only
    rw [if_neg null, if_neg yes, if_neg no, if_neg minus, if_pos digit,
      bind_of_ok (skipNumber_of_number read)]
    exact after
  | string read =>
    dsimp only
    rw [if_neg (by decide), if_neg (by decide), if_neg (by decide), if_neg (by decide),
      if_neg (by decide), if_pos rfl, bind_of_ok (skipText_of_text read)]
    exact after
  | list read => exact lists _ _ _ read after
  | object read => exact objects _ _ _ read after

theorem closes_of_value {room : Nat} {stack : List Frame} {s t rest : Bytes} {v : Json}
    (read : value room s = .ok (v, t)) (after : Closes (afterSkipped stack t) rest) :
    Closes (skipOpening stack s) rest := by
  induction room using Nat.strongRecOn generalizing stack s t rest v with
  | _ room ih =>
    obtain ⟨list, object, run, lists, objects⟩ := run_of_value read
    refine closes_of_run ?_ ?_ run after
    · intro s v t read after
      obtain ⟨inner, vs, rfl, -, run⟩ := lists s v t read
      exact closes_list (fun _ _ _ _ _ => ih inner (Nat.lt_succ_self inner)) run after
    · intro s v t read after
      obtain ⟨inner, ms, rfl, -, run⟩ := objects s v t read
      exact closes_object (fun _ _ _ _ _ => ih inner (Nat.lt_succ_self inner)) run after

/-- What can be read as a tree can be passed over, up to the same byte. -/
theorem skip_of_value {room : Nat} {s t : Bytes} {v : Json} (read : value room s = .ok (v, t)) :
    skip s = .ok ((), t) :=
  skipFrom_of_closes (closes_of_value read .done) (Nat.le_refl _)

end QueueBench.Json.Reader
