import QueueBench.Aggregation.Matrix

set_option autoImplicit false

namespace QueueBench

theorem halve_succ (tooLarge : Nat → Bool) (steps base size : Nat) :
    halve tooLarge (steps + 1) base size =
      if size ≤ 1 then base
      else halve tooLarge steps
        (if tooLarge (base + size / 2) = true then base else base + size / 2)
        (size - size / 2) := rfl

/-- The place sought stays among the `size` places from `base` on, and one round leaves fewer. -/
theorem halve_eq {tooLarge : Nat → Bool} {place steps base size : Nat}
    (lower : base ≤ place) (upper : place < base + size) (enough : size ≤ steps + 1)
    (decides : ∀ i, base ≤ i → i < base + size → (tooLarge i = true ↔ place < i)) :
    halve tooLarge steps base size = place := by
  induction steps generalizing base size with
  | zero =>
    unfold halve
    omega
  | succ steps ih =>
    rw [halve_succ]
    by_cases single : size ≤ 1
    · rw [if_pos single]
      omega
    · rw [if_neg single]
      have middle := decides (base + size / 2) (by omega) (by omega)
      by_cases above : tooLarge (base + size / 2) = true
      · have below : place < base + size / 2 := middle.mp above
        rw [if_pos above]
        exact ih lower (by omega) (by omega) fun i low _ => decides i low (by omega)
      · have reached : ¬ place < base + size / 2 := fun below => above (middle.mpr below)
        rw [if_neg above]
        exact ih (by omega) (by omega) (by omega) fun i _ _ =>
          decides i (by omega) (by omega)

/-- The half that is kept lies within the places there were. -/
theorem half_within (tooLarge : Nat → Bool) (base : Nat) {size : Nat} (several : ¬ size ≤ 1) :
    base ≤ (if tooLarge (base + size / 2) = true then base else base + size / 2) ∧
      (if tooLarge (base + size / 2) = true then base else base + size / 2) + (size - size / 2) ≤
        base + size := by
  split <;> omega

/-- Only the places that are left are asked about. -/
theorem halve_congr {tooLarge other : Nat → Bool} {steps base size : Nat}
    (same : ∀ i, base ≤ i → i < base + size → tooLarge i = other i) :
    halve tooLarge steps base size = halve other steps base size := by
  induction steps generalizing base size with
  | zero => rfl
  | succ steps ih =>
    rw [halve_succ, halve_succ]
    by_cases single : size ≤ 1
    · rw [if_pos single, if_pos single]
    · rw [if_neg single, if_neg single, same (base + size / 2) (by omega) (by omega)]
      have within := half_within other base single
      apply ih
      intro i lower upper
      exact same i (Nat.le_trans within.1 lower) (Nat.lt_of_lt_of_le upper within.2)

/-- The place that is left at the end is one of those there were. -/
theorem halve_lt (tooLarge : Nat → Bool) (steps base : Nat) {size : Nat} (some : 0 < size) :
    halve tooLarge steps base size < base + size := by
  induction steps generalizing base size with
  | zero =>
    unfold halve
    omega
  | succ steps ih =>
    rw [halve_succ]
    by_cases single : size ≤ 1
    · rw [if_pos single]
      omega
    · rw [if_neg single]
      exact Nat.lt_of_lt_of_le (ih _ (by omega)) (half_within tooLarge base single).2

/-- With a round for every place but one, further rounds change nothing. -/
theorem halve_add (tooLarge : Nat → Bool) (more : Nat) {steps base size : Nat}
    (enough : size ≤ steps + 1) :
    halve tooLarge (steps + more) base size = halve tooLarge steps base size := by
  induction steps generalizing base size with
  | zero =>
    rw [Nat.zero_add]
    cases more with
    | zero => rfl
    | succ more =>
      rw [halve_succ, if_pos (by omega)]
      rfl
  | succ steps ih =>
    rw [Nat.succ_add, halve_succ, halve_succ]
    by_cases single : size ≤ 1
    · rw [if_pos single, if_pos single]
    · rw [if_neg single, if_neg single]
      apply ih
      omega

variable {α : Type} [Ord α]

/-- On an ascending axis a member is larger than another exactly if it stands after it. -/
theorem exceedsAt_iff [Std.TransOrd α] {axis : List α}
    (ascending : axis.Pairwise (compare · · = .lt)) {x : α} {place i : Nat}
    (here : axis[place]? = some x) (inside : i < axis.length) :
    exceedsAt axis x i = true ↔ place < i := by
  obtain ⟨placeInside, rfl⟩ := List.getElem?_eq_some_iff.mp here
  have order := List.pairwise_iff_getElem.mp ascending
  simp only [exceedsAt, List.getElem?_eq_getElem inside, beq_iff_eq]
  rcases Nat.lt_trichotomy place i with before | same | after
  · have above := Std.OrientedCmp.gt_of_lt (order place i placeInside inside before)
    exact iff_of_true above before
  · subst same
    rw [Std.ReflOrd.compare_self]
    simp
  · rw [order i place inside placeInside after]
    simpa using Nat.le_of_lt after

variable [DecidableEq α]

theorem getElem?_of_rank? {axis : List α} {x : α} {i : Nat} (found : rank? axis x = some i) :
    axis[i]? = some x := by
  unfold rank? at found
  dsimp only at found
  split at found
  · rename_i present
    rw [← Option.some.inj found]
    exact present
  · cases found

theorem rank?_of_getElem? [Std.TransOrd α] {axis : List α}
    (ascending : axis.Pairwise (compare · · = .lt)) {x : α} {place : Nat}
    (here : axis[place]? = some x) : rank? axis x = some place := by
  obtain ⟨inside, -⟩ := List.getElem?_eq_some_iff.mp here
  have reached : halve (exceedsAt axis x) axis.length 0 axis.length = place :=
    halve_eq (Nat.zero_le _) (by omega) (Nat.le_succ _) fun i _ upper =>
      exceedsAt_iff ascending here (by omega)
  unfold rank?
  dsimp only
  rw [reached, if_pos here]

variable [Std.TransOrd α] {axis : List α} (ascending : axis.Pairwise (compare · · = .lt))
include ascending

theorem rank?_eq_some_iff (x : α) (i : Nat) : rank? axis x = some i ↔ axis[i]? = some x :=
  ⟨getElem?_of_rank?, rank?_of_getElem? ascending⟩

end QueueBench
