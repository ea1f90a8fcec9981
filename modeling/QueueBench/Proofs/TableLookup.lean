import QueueBench.Proofs.Containers
import QueueBench.Table

set_option autoImplicit false

namespace QueueBench.Table

variable {κ α β : Type} [Ord κ]

theorem get?_mapValues (t : Table κ α) (f : α → β) (k : κ) :
    (t.mapValues f).get? k = (t.get? k).map f := by
  unfold mapValues get?
  rw [List.find?_map, Option.map_map, Option.map_map]
  rfl

theorem keys_mapValues (f : α → β) (t : Table κ α) : (t.mapValues f).keys = t.keys := by
  unfold mapValues keys
  rw [List.map_map]
  rfl

theorem mapValues_eq_self {t : Table κ α} {f : α → α} (fixed : ∀ e ∈ t.entries, f e.2 = e.2) :
    t.mapValues f = t := by
  apply Table.ext
  apply map_eq_self
  intro e inside
  rw [fixed e inside]

theorem keys_ascending (t : Table κ α) : t.keys.Pairwise (fun a b => compare a b = .lt) :=
  List.pairwise_map.mpr t.ascending

variable [DecidableEq κ] [Std.LawfulEqOrd κ]

theorem compare_beq_eq (k l : κ) : (compare k l == .eq) = decide (l = k) := by
  rw [Bool.eq_iff_iff, Std.LawfulEqOrd.compare_beq_iff_eq, decide_eq_true_iff]
  exact eq_comm

/-- In ascending order there is at most one entry of a key, the one that is found first. -/
theorem filter_eq_find? (k : κ) {es : List (κ × α)}
    (ascending : es.Pairwise (fun a b => compare a.1 b.1 = .lt)) :
    es.filter (fun e => e.1 = k) =
      ((es.find? fun e => compare k e.1 == .eq).map fun e => (k, e.2)).toList := by
  induction es with
  | nil => rfl
  | cons e rest ih =>
    obtain ⟨first, later⟩ := List.pairwise_cons.mp ascending
    by_cases same : e.1 = k
    · have none : rest.filter (fun e => e.1 = k) = [] := by
        apply List.filter_eq_nil_iff.mpr
        intro x member equal
        have below := first x member
        rw [same, of_decide_eq_true equal, Std.ReflOrd.compare_self] at below
        cases below
      rw [List.filter_cons_of_pos (by simpa using same), none, List.find?_cons_of_pos]
      · rw [← same]
        rfl
      · rw [compare_beq_eq, decide_eq_true_iff]
        exact same
    · rw [List.filter_cons_of_neg (by simpa using same), ih later, List.find?_cons_of_neg]
      rw [compare_beq_eq, decide_eq_true_iff]
      exact same

theorem filter_entries (t : Table κ α) (k : κ) :
    t.entries.filter (fun e => e.1 = k) = ((t.get? k).map fun v => (k, v)).toList := by
  rw [filter_eq_find? k t.ascending, get?, Option.map_map]
  rfl

theorem get?_eq_some_iff (t : Table κ α) (k : κ) (v : α) :
    t.get? k = some v ↔ (k, v) ∈ t.entries := by
  have picked : (k, v) ∈ t.entries.filter (fun e => e.1 = k) ↔ (k, v) ∈ t.entries := by
    rw [List.mem_filter, decide_eq_true_iff, and_iff_left rfl]
  rw [← picked, filter_entries, Option.mem_toList, Option.map_eq_some_iff]
  simp only [Prod.mk.injEq, true_and, exists_eq_right]

theorem mem_keys_iff (t : Table κ α) (k : κ) : k ∈ t.keys ↔ (t.get? k).isSome := by
  rw [Option.isSome_iff_exists]
  simp only [get?_eq_some_iff, keys, List.mem_map, Prod.exists, exists_and_right, exists_eq_right]

variable [Std.TransOrd κ]

theorem get?_insert (t : Table κ α) (k l : κ) (v : α) :
    (t.insert k v).get? l = if l = k then some v else t.get? l := by
  by_cases same : l = k
  · subst same
    rw [get?_insert_self, if_pos rfl]
  · have apart : compare l k ≠ .eq := fun equal => same (Std.LawfulEqOrd.eq_of_compare equal)
    rw [get?_insert_of_ne apart, if_neg same]

theorem get?_update (t : Table κ α) (k l : κ) (f : Option α → α) :
    (t.update k f).get? l = if l = k then some (f (t.get? l)) else t.get? l := by
  rw [update, get?_insert]
  by_cases same : l = k
  · rw [if_pos same, if_pos same, same]
  · rw [if_neg same, if_neg same]

theorem get?_insertNew (t : Table κ α) (k l : κ) (v : α) :
    (t.insertNew k v).get? l = if l = k then (t.get? l).or (some v) else t.get? l := by
  unfold insertNew
  by_cases same : l = k
  · subst same
    rw [if_pos rfl]
    cases found : t.get? l with
    | some w => exact found
    | none => exact get?_insert_self t l v
  · rw [if_neg same]
    cases t.get? k with
    | some w => rfl
    | none => rw [get?_insert, if_neg same]

theorem mem_keys_insert (t : Table κ α) (k l : κ) (v : α) :
    l ∈ (t.insert k v).keys ↔ l = k ∨ l ∈ t.keys := by
  rw [mem_keys_iff, mem_keys_iff, get?_insert]
  by_cases same : l = k
  · simp only [same, ↓reduceIte, Option.isSome_some, true_or]
  · simp only [same, ↓reduceIte, false_or]

end QueueBench.Table
