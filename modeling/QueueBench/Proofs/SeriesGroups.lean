import QueueBench.Aggregation.Series
import QueueBench.Proofs.TableLookup

set_option autoImplicit false

namespace QueueBench

namespace Table

variable {κ α β : Type} [Ord κ]

def group (t : Table κ (List α)) (k : κ) : List α := (t.get? k).getD []

def appendTo [Std.TransOrd κ] (t : Table κ (List α)) (k : κ) (a : α) : Table κ (List α) :=
  t.update k fun members => members.getD [] ++ [a]

@[simp] theorem group_emptyCollection (k : κ) : (∅ : Table κ (List α)).group k = [] := rfl

theorem group_mapValues {f : List α → List β} (t : Table κ (List α)) (empty : f [] = []) (k : κ) :
    (t.mapValues f).group k = f (t.group k) := by
  unfold group
  rw [get?_mapValues]
  cases t.get? k with
  | none => exact empty.symm
  | some members => rfl

variable [DecidableEq κ] [Std.LawfulEqOrd κ] [Std.TransOrd κ]

theorem group_appendTo (t : Table κ (List α)) (k l : κ) (a : α) :
    (t.appendTo k a).group l = if k = l then t.group l ++ [a] else t.group l := by
  unfold group appendTo
  rw [get?_update]
  by_cases same : l = k
  · rw [if_pos same, if_pos same.symm, Option.getD_some]
  · rw [if_neg same, if_neg (Ne.symm same)]

/-- A run of additions leaves in each group what was meant for it, in order. -/
theorem group_foldl_appendTo (coordinate : β → κ) (point : β → α) (items : List β)
    (t : Table κ (List α)) (k : κ) :
    (items.foldl (fun t b => t.appendTo (coordinate b) (point b)) t).group k =
      t.group k ++ (items.filter fun b => coordinate b = k).map point := by
  induction items generalizing t with
  | nil => simp
  | cons b rest ih =>
    rw [List.foldl_cons, ih, group_appendTo]
    by_cases same : coordinate b = k
    · rw [if_pos same, List.filter_cons_of_pos (by simpa using same), List.map_cons,
        List.append_assoc, List.singleton_append]
    · rw [if_neg same, List.filter_cons_of_neg (by simpa using same)]

omit [DecidableEq κ] [Std.LawfulEqOrd κ] in
/-- Setting a group changes the number of members by what the group had before. -/
theorem length_flatten_putEntry (k : κ) (members : List α) {es : List (κ × List α)}
    (ascending : es.Pairwise (fun a b => compare a.1 b.1 = .lt)) :
    ((putEntry k members es).map (·.2)).flatten.length +
        (((es.find? fun e => compare k e.1 == .eq).map (·.2)).getD []).length =
      (es.map (·.2)).flatten.length + members.length := by
  induction es with
  | nil => simp [putEntry]
  | cons e rest ih =>
    obtain ⟨first, later⟩ := List.pairwise_cons.mp ascending
    rw [putEntry]
    cases order : compare k e.1 with
    | lt =>
      have absent : (e :: rest).find? (fun e => compare k e.1 == .eq) = none := by
        refine List.find?_eq_none.mpr fun x inside => ?_
        rcases List.mem_cons.mp inside with rfl | inside
        · simp [order]
        · simp [Std.TransCmp.lt_trans order (first x inside)]
      rw [absent]
      simp only [List.map_cons, List.flatten_cons, List.length_append, Option.map_none,
        Option.getD_none, List.length_nil]
      omega
    | eq =>
      rw [List.find?_cons_of_pos (by simp [order])]
      simp only [List.map_cons, List.flatten_cons, List.length_append, Option.map_some,
        Option.getD_some]
      omega
    | gt =>
      have counted := ih later
      rw [List.find?_cons_of_neg (by simp [order])]
      simp only [List.map_cons, List.flatten_cons, List.length_append]
      omega

omit [DecidableEq κ] [Std.LawfulEqOrd κ] in
theorem length_values_appendTo (t : Table κ (List α)) (k : κ) (a : α) :
    (t.appendTo k a).values.flatten.length = t.values.flatten.length + 1 := by
  have counted := length_flatten_putEntry k (t.group k ++ [a]) t.ascending
  have own : (((t.entries.find? fun e => compare k e.1 == .eq).map (·.2)).getD []) = t.group k :=
    rfl
  rw [own, List.length_append, List.length_singleton] at counted
  have unfolded : (t.appendTo k a).values.flatten.length =
      ((putEntry k (t.group k ++ [a]) t.entries).map (·.2)).flatten.length := rfl
  have before : t.values.flatten.length = (t.entries.map (·.2)).flatten.length := rfl
  omega

omit [DecidableEq κ] [Std.LawfulEqOrd κ] in
/-- A run of additions adds a member for every item. -/
theorem length_values_foldl_appendTo (coordinate : β → κ) (point : β → α) (items : List β)
    (t : Table κ (List α)) :
    (items.foldl (fun t b => t.appendTo (coordinate b) (point b)) t).values.flatten.length =
      t.values.flatten.length + items.length := by
  induction items generalizing t with
  | nil => rfl
  | cons b rest ih =>
    rw [List.foldl_cons, ih, length_values_appendTo, List.length_cons]
    omega

omit [DecidableEq κ] [Std.LawfulEqOrd κ] [Std.TransOrd κ] in
theorem length_values_mapValues {f : List α → List β} (same : ∀ members, (f members).length =
    members.length) (t : Table κ (List α)) :
    (t.mapValues f).values.flatten.length = t.values.flatten.length := by
  unfold mapValues values
  simp only [List.map_map, List.length_flatten]
  congr 1
  exact List.map_congr_left fun e _ => same e.2

/-- A run of additions makes the groups that its items go to. -/
theorem mem_keys_foldl_appendTo (coordinate : β → κ) (point : β → α) (items : List β)
    (t : Table κ (List α)) (k : κ) :
    k ∈ (items.foldl (fun t b => t.appendTo (coordinate b) (point b)) t).keys ↔
      k ∈ t.keys ∨ k ∈ items.map coordinate := by
  induction items generalizing t with
  | nil => simp
  | cons b rest ih =>
    have added (l : κ) : l ∈ (t.appendTo (coordinate b) (point b)).keys ↔
        l = coordinate b ∨ l ∈ t.keys := mem_keys_insert t _ l _
    rw [List.foldl_cons, ih, added, List.map_cons, List.mem_cons, or_assoc, or_left_comm]

end Table

namespace Series

/-- The samples that the grouping by queue size holds for a key. -/
def byQueueSizeAt (s : Series) (key : Key) : List ProducerPoint :=
  (s.byQueueSize.group key.queueSize).filter fun p => p.producerCount = key.producerCount

def byProducerCountAt (s : Series) (key : Key) : List QueuePoint :=
  (s.byProducerCount.group key.producerCount).filter fun p => p.queueSize = key.queueSize

theorem byQueueSizeAt_sort (s : Series) (key : Key) :
    (s.sort.byQueueSizeAt key).Perm (s.byQueueSizeAt key) := by
  unfold byQueueSizeAt sort
  rw [Table.group_mapValues _ List.mergeSort_nil]
  exact (List.mergeSort_perm _ _).filter _

theorem byProducerCountAt_sort (s : Series) (key : Key) :
    (s.sort.byProducerCountAt key).Perm (s.byProducerCountAt key) := by
  unfold byProducerCountAt sort
  rw [Table.group_mapValues _ List.mergeSort_nil]
  exact (List.mergeSort_perm _ _).filter _

variable {α : Type} (key : α → Key) (mops : α → Float)

theorem byQueueSize_foldl_push (items : List α) (s : Series) :
    (items.foldl (fun s a => s.push (key a) (mops a)) s).byQueueSize =
      items.foldl (fun t a => t.appendTo (key a).queueSize ⟨(key a).producerCount, mops a⟩)
        s.byQueueSize := by
  induction items generalizing s with
  | nil => rfl
  | cons a rest ih => exact ih (s.push (key a) (mops a))

theorem byProducerCount_foldl_push (items : List α) (s : Series) :
    (items.foldl (fun s a => s.push (key a) (mops a)) s).byProducerCount =
      items.foldl (fun t a => t.appendTo (key a).producerCount ⟨(key a).queueSize, mops a⟩)
        s.byProducerCount := by
  induction items generalizing s with
  | nil => rfl
  | cons a rest ih => exact ih (s.push (key a) (mops a))

/-- After a run of samples the groups hold for a key what was pushed under it, in order. -/
theorem byQueueSizeAt_foldl_push (items : List α) (k : Key) :
    (items.foldl (fun s a => s.push (key a) (mops a)) empty).byQueueSizeAt k =
      (items.filter fun a => key a = k).map fun a => ⟨(key a).producerCount, mops a⟩ := by
  unfold byQueueSizeAt
  rw [byQueueSize_foldl_push, Table.group_foldl_appendTo, empty, Table.group_emptyCollection,
    List.nil_append, List.filter_map, List.filter_filter]
  congr 1
  apply List.filter_congr
  intro a _
  simp only [Function.comp_apply, Key.ext_iff, Bool.decide_and, Bool.and_comm]

theorem byProducerCountAt_foldl_push (items : List α) (k : Key) :
    (items.foldl (fun s a => s.push (key a) (mops a)) empty).byProducerCountAt k =
      (items.filter fun a => key a = k).map fun a => ⟨(key a).queueSize, mops a⟩ := by
  unfold byProducerCountAt
  rw [byProducerCount_foldl_push, Table.group_foldl_appendTo, empty, Table.group_emptyCollection,
    List.nil_append, List.filter_map, List.filter_filter]
  congr 1
  apply List.filter_congr
  intro a _
  simp only [Function.comp_apply, Key.ext_iff, Bool.decide_and]

/-- Every pushed sample stands in both groupings. -/
theorem length_byQueueSize_foldl_push (items : List α) :
    (items.foldl (fun s a => s.push (key a) (mops a)) empty).byQueueSize.values.flatten.length =
      items.length := by
  rw [byQueueSize_foldl_push, Table.length_values_foldl_appendTo]
  exact Nat.zero_add _

theorem length_byProducerCount_foldl_push (items : List α) :
    (items.foldl (fun s a => s.push (key a) (mops a)) empty).byProducerCount.values.flatten.length =
      items.length := by
  rw [byProducerCount_foldl_push, Table.length_values_foldl_appendTo]
  exact Nat.zero_add _

theorem length_byQueueSize_sort (s : Series) :
    s.sort.byQueueSize.values.flatten.length = s.byQueueSize.values.flatten.length :=
  Table.length_values_mapValues (fun _ => List.length_mergeSort _) s.byQueueSize

theorem length_byProducerCount_sort (s : Series) :
    s.sort.byProducerCount.values.flatten.length = s.byProducerCount.values.flatten.length :=
  Table.length_values_mapValues (fun _ => List.length_mergeSort _) s.byProducerCount

end Series

end QueueBench
