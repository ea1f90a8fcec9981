import Mathlib.Data.List.Forall2
import Mathlib.Data.List.Nodup
import Mathlib.Data.List.Pairwise
import Mathlib.Data.List.SplitLengths

set_option autoImplicit false

/- Facts about lists, options and results that the libraries do not have. -/
namespace QueueBench

variable {α β ε : Type}

section Sorting

variable {le : α → α → Bool}

end Sorting

/-- Sorting by a coordinate that no two members share leaves it strictly ascending. -/
theorem ascending_mergeSort [LE β] [LT β] [DecidableLE β] [Std.IsLinearOrder β]
    [Std.LawfulOrderLT β] (coordinate : α → β) {items : List α}
    (once : (items.map coordinate).Nodup) :
    ((items.mergeSort fun a b => coordinate a ≤ coordinate b).map coordinate).Pairwise (· < ·) := by
  have sorted : (items.mergeSort fun a b => coordinate a ≤ coordinate b).Pairwise fun a b =>
      coordinate a ≤ coordinate b := by
    refine (List.pairwise_mergeSort (fun a b c => ?_) (fun a b => ?_) items).imp of_decide_eq_true
    · simp only [decide_eq_true_eq]
      exact Std.le_trans
    · simp only [Bool.or_eq_true, decide_eq_true_eq]
      exact Std.le_total
  have distinct : ((items.mergeSort fun a b => coordinate a ≤ coordinate b).map coordinate).Nodup :=
    ((List.mergeSort_perm _ _).map coordinate).nodup_iff.mpr once
  refine List.pairwise_map.mpr ?_
  refine (sorted.and (List.pairwise_map.mp distinct)).imp fun {a b} both => ?_
  exact Std.lt_of_le_of_ne both.1 both.2

theorem filter_eq_singleton [DecidableEq β] {f : α → β} {l : List α}
    (once : (l.map f).Nodup) {a : α} (member : a ∈ l) : l.filter (fun b => f b = f a) = [a] := by
  apply List.perm_singleton.mp
  apply (List.perm_ext_iff_of_nodup ((once.of_map f).filter _) (List.nodup_singleton a)).mpr
  intro b
  rw [List.mem_filter, List.mem_singleton, decide_eq_true_iff]
  constructor
  · rintro ⟨other, same⟩
    exact List.inj_on_of_nodup_map once other member same
  · rintro rfl
    exact ⟨member, rfl⟩

theorem map_eq_self {f : α → α} {l : List α} (fixed : ∀ a ∈ l, f a = a) : l.map f = l :=
  (List.map_congr_left fixed).trans (List.map_id l)

/-- At most one member leaves nothing to rearrange. -/
theorem eq_toList_of_perm {l : List α} {o : Option α} (perm : l.Perm o.toList) :
    l = o.toList := by
  cases o with
  | none => exact perm.eq_nil
  | some a => exact List.perm_singleton.mp perm

/-- What a list of found values answers. -/
theorem lookup_filterMap [DecidableEq α] [BEq α] [LawfulBEq α] (find? : α → Option β)
    (names : List α) (name : α) :
    (names.filterMap fun n => (find? n).map fun b => (n, b)).lookup name =
      if name ∈ names then find? name else none := by
  induction names with
  | nil => rfl
  | cons n rest ih =>
    by_cases same : name = n
    · subst same
      rw [if_pos List.mem_cons_self]
      cases found : find? name with
      | none =>
        rw [List.filterMap_cons_none (by rw [found]; rfl), ih, found]
        exact ite_self none
      | some i => rw [List.filterMap_cons_some (by rw [found]; rfl), List.lookup_cons_self]
    · have other : name ∈ n :: rest ↔ name ∈ rest := by
        rw [List.mem_cons]
        exact or_iff_right same
      simp only [other]
      cases found : find? n with
      | none => rw [List.filterMap_cons_none (by rw [found]; rfl), ih]
      | some i =>
        rw [List.filterMap_cons_some (by rw [found]; rfl), List.lookup_cons, ih,
          beq_eq_false_iff_ne.mpr same]

/-- If the parts of a list share no member, whoever has a member in two parts has it in one. -/
theorem eq_of_mem_parts {part : α → List β} {l : List α}
    (once : (l.flatMap part).Nodup) {a b : α} (here : a ∈ l) (there : b ∈ l) {x : β}
    (first : x ∈ part a) (second : x ∈ part b) : a = b := by
  by_contra other
  have : Std.Symm (Function.onFun List.Disjoint part) :=
    ⟨fun _ _ apart _ second first => apart first second⟩
  have apart := (List.nodup_flatMap.mp once).2.forall here there other
  exact apart first second

/-- Cutting a list back into the parts it was put together from. -/
theorem splitLengths_flatten (parts : List (List α)) :
    (parts.map List.length).splitLengths parts.flatten = parts := by
  induction parts with
  | nil => rfl
  | cons part rest ih =>
    rw [List.map_cons, List.flatten_cons, List.splitLengths_cons, List.take_left, List.drop_left,
      ih]

theorem forall₂_map_map {γ : Type} {R : β → γ → Prop} {f : α → β} {g : α → γ}
    (related : ∀ a, R (f a) (g a)) (l : List α) : List.Forall₂ R (l.map f) (l.map g) :=
  List.forall₂_map_right_iff.mpr
    (List.forall₂_map_left_iff.mpr (List.forall₂_same.mpr fun a _ => related a))

theorem mapM_eq_some {f : α → Option β} {xs : List α} {ys : List β} :
    xs.mapM f = some ys ↔ List.Forall₂ (fun x y => f x = some y) xs ys := by
  induction xs generalizing ys with
  | nil =>
    simp only [List.mapM_nil, List.forall₂_nil_left_iff, Option.pure_def, Option.some.injEq]
    exact eq_comm
  | cons x xs ih =>
    simp only [List.mapM_cons, bind, Option.bind_eq_some_iff, pure, Option.some.injEq, ih,
      List.forall₂_cons_left_iff]
    constructor
    · rintro ⟨y, first, later, each, rfl⟩
      exact ⟨y, later, first, each, rfl⟩
    · rintro ⟨y, later, first, each, rfl⟩
      exact ⟨y, first, later, each, rfl⟩

theorem toOption_eq_some {x : Except ε α} {a : α} :
    x.toOption = some a ↔ x = .ok a := by
  cases x with
  | error e => simp [Except.toOption]
  | ok b => simp [Except.toOption]

theorem exceptMap_eq_ok {f : α → β} {x : Except ε α} {b : β} :
    x.map f = .ok b ↔ ∃ a, x = .ok a ∧ f a = b := by
  cases x with
  | error e => simp [Except.map]
  | ok a => simp [Except.map]

end QueueBench
