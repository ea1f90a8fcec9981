import Mathlib.Data.List.Induction
import Mathlib.Data.List.Nodup
import QueueBench.Json.Basic
import QueueBench.Proofs.TableLookup

set_option autoImplicit false

namespace QueueBench

namespace Table

variable {κ α : Type} [Ord κ] [DecidableEq κ] [Std.LawfulEqOrd κ] [Std.TransOrd κ]

omit [DecidableEq κ] [Std.LawfulEqOrd κ] in
theorem keys_nodup (t : Table κ α) : t.keys.Nodup := by
  refine t.keys_ascending.imp fun {k l} below equal => ?_
  rw [equal, Std.ReflOrd.compare_self] at below
  cases below

/-- Tables that give the same answers have the same entries. -/
theorem ext_get? {s t : Table κ α} (same : ∀ k, s.get? k = t.get? k) : s = t := by
  have members (e : κ × α) : e ∈ s.entries ↔ e ∈ t.entries := by
    rw [← get?_eq_some_iff, ← get?_eq_some_iff, same]
  have strict (u : Table κ α) : u.entries.Nodup := List.Nodup.of_map Prod.fst u.keys_nodup
  have permuted : s.entries.Perm t.entries :=
    (List.perm_ext_iff_of_nodup (strict s) (strict t)).mpr members
  refine Table.ext (permuted.eq_of_pairwise (fun a b _ _ below above => ?_) s.ascending t.ascending)
  rw [Std.OrientedCmp.gt_of_lt below] at above
  cases above

omit [DecidableEq κ] [Std.LawfulEqOrd κ] in
theorem ofList_concat (pairs : List (κ × α)) (e : κ × α) :
    ofList (pairs ++ [e]) = (ofList pairs).insert e.1 e.2 := by
  unfold ofList
  rw [List.foldl_append]
  rfl

/-- Of several values of one key the last stays. -/
theorem get?_ofList (pairs : List (κ × α)) (k : κ) :
    (ofList pairs).get? k = (pairs.reverse.find? fun e => e.1 = k).map (·.2) := by
  induction pairs using List.reverseRecOn with
  | nil => rfl
  | append_singleton pairs e ih =>
    rw [ofList_concat, get?_insert, ih, List.reverse_append, List.reverse_singleton,
      List.singleton_append, List.find?_cons]
    by_cases same : k = e.1
    · simp [same]
    · simp [same, Ne.symm same]

/-- In a list without repeated keys it does not matter which value is the last. -/
theorem get?_ofList_of_nodup {pairs : List (κ × α)} (distinct : (pairs.map (·.1)).Nodup) (k : κ)
    (v : α) : (ofList pairs).get? k = some v ↔ (k, v) ∈ pairs := by
  induction pairs using List.reverseRecOn with
  | nil => simp [ofList, get?_empty]
  | append_singleton pairs e ih =>
    rw [List.map_append, List.map_singleton, List.nodup_append] at distinct
    obtain ⟨distinct, -, apart⟩ := distinct
    rw [ofList_concat, get?_insert, List.mem_append, List.mem_singleton]
    by_cases same : k = e.1
    · have absent : (k, v) ∉ pairs := fun member =>
        apart _ (List.mem_map_of_mem member) _ List.mem_cons_self same
      rw [if_pos same, or_iff_right absent, same, Option.some.injEq, Prod.ext_iff]
      simp [eq_comm]
    · rw [if_neg same, ih distinct, or_iff_left]
      rintro rfl
      exact same rfl

theorem ofList_entries (t : Table κ α) : ofList t.entries = t := by
  refine ext_get? fun k => Option.ext fun v => ?_
  rw [get?_ofList_of_nodup t.keys_nodup, get?_eq_some_iff]

end Table

namespace Json

theorem normalItems_eq_map (items : List Json) : normalItems items = items.map normal := by
  induction items with
  | nil => rfl
  | cons v later ih => rw [normalItems, ih, List.map_cons]

theorem normalMembers_eq_map (members : List (String × Json)) :
    normalMembers members = members.map fun m => (m.1, m.2.normal) := by
  induction members with
  | nil => rfl
  | cons m later ih =>
    obtain ⟨name, v⟩ := m
    rw [normalMembers, ih, List.map_cons]

/-- Every value is a scalar, or a list or an object of smaller values. -/
@[elab_as_elim]
theorem nestedInduction {motive : Json → Prop} (null : motive null)
    (boolean : ∀ b, motive (boolean b)) (number : ∀ n, motive (number n))
    (string : ∀ s, motive (string s))
    (array : ∀ items, (∀ v ∈ items, motive v) → motive (array items))
    (object : ∀ members, (∀ m ∈ members, motive m.2) → motive (object members)) (v : Json) :
    motive v := by
  refine @Json.rec motive (fun items => ∀ v ∈ items, motive v)
    (fun members => ∀ m ∈ members, motive m.2) (fun m => motive m.2) null boolean number string
    array object ?_ ?_ ?_ ?_ ?_ v
  · simp
  · intro v later head tail
    exact List.forall_mem_cons.mpr ⟨head, tail⟩
  · simp
  · intro m later head tail
    exact List.forall_mem_cons.mpr ⟨head, tail⟩
  · intro name v holds
    exact holds

theorem normal_array (items : List Json) : (array items).normal = array (items.map normal) := by
  rw [normal, normalItems_eq_map]

theorem normal_object (members : List (String × Json)) :
    (object members).normal = object (tableOf members).entries := by
  rw [normal]
  rfl

/-- What the table of an object answers: the normal form of the last member of the name. -/
theorem get?_tableOf (members : List (String × Json)) (name : String) :
    (tableOf members).get? name = ((object members).member? name).map normal := by
  have picked : ((fun e : String × Json => decide (e.1 = name)) ∘
      fun m : String × Json => (m.1, m.2.normal)) = fun m => m.1 == name := by
    funext m
    exact (beq_eq_decide _ _).symm
  rw [tableOf, Table.get?_ofList, normalMembers_eq_map, ← List.map_reverse, List.find?_map, picked,
    Option.map_map, member?, Option.map_map]
  rfl

theorem mem_of_member? {members : List (String × Json)} {name : String} {v : Json}
    (found : (object members).member? name = some v) : (name, v) ∈ members := by
  rw [member?, Option.map_eq_some_iff] at found
  obtain ⟨m, found, rfl⟩ := found
  have same := List.find?_some found
  rw [beq_iff_eq] at same
  rw [← same]
  exact List.mem_reverse.mp (List.mem_of_find?_eq_some found)

/-- The entries of an object's table are normal forms of its members. -/
theorem mem_tableOf {members : List (String × Json)} {e : String × Json}
    (member : e ∈ (tableOf members).entries) : ∃ v, (e.1, v) ∈ members ∧ e.2 = v.normal := by
  have found := ((tableOf members).get?_eq_some_iff e.1 e.2).mpr member
  rw [get?_tableOf, Option.map_eq_some_iff] at found
  obtain ⟨v, found, same⟩ := found
  exact ⟨v, mem_of_member? found, same.symm⟩

theorem tableOf_entries {t : Table String Json} (fixed : ∀ e ∈ t.entries, e.2.normal = e.2) :
    tableOf t.entries = t := by
  have kept : normalMembers t.entries = t.entries := by
    rw [normalMembers_eq_map]
    conv_rhs => rw [← List.map_id t.entries]
    exact List.map_congr_left fun e member => Prod.ext rfl (fixed e member)
  rw [tableOf, kept, Table.ofList_entries]

theorem normal_normal (v : Json) : v.normal.normal = v.normal := by
  induction v using nestedInduction with
  | null => rfl
  | boolean b => rfl
  | number n => rfl
  | string s => rfl
  | array items ih =>
    rw [normal_array, normal_array, List.map_map]
    congr 1
    exact List.map_congr_left ih
  | object members ih =>
    rw [normal_object, normal_object, tableOf_entries]
    intro e member
    obtain ⟨v, found, same⟩ := mem_tableOf member
    rw [same]
    exact ih _ found

theorem tableOf_fixed {members : List (String × Json)} :
    ∀ e ∈ (tableOf members).entries, e.2.normal = e.2 := by
  intro e member
  obtain ⟨v, -, same⟩ := mem_tableOf member
  rw [same, normal_normal]

end Json

end QueueBench
