import Mathlib.Data.List.Basic
import Mathlib.Data.List.Induction
import QueueBench.Aggregation.Basic
import QueueBench.Proofs.Containers
import QueueBench.Proofs.TableLookup

set_option autoImplicit false

namespace QueueBench

/-- The last place at which a key stands. -/
def IsLastPlace (keys : List Key) (key : Key) (place : Nat) : Prop :=
  keys[place]? = some key ∧ ∀ later, place < later → keys[later]? ≠ some key

theorem IsLastPlace.lt_length {keys : List Key} {key : Key} {place : Nat}
    (last : IsLastPlace keys key place) : place < keys.length :=
  (List.getElem?_eq_some_iff.mp last.1).1

theorem not_isLastPlace_nil (key : Key) (place : Nat) : ¬ IsLastPlace [] key place := by
  rintro ⟨present, -⟩
  cases present

theorem isLastPlace_append {keys : List Key} {new key : Key} {place : Nat} :
    IsLastPlace (keys ++ [new]) key place ↔
      (key = new ∧ place = keys.length) ∨ (key ≠ new ∧ IsLastPlace keys key place) := by
  have atEnd : (keys ++ [new])[keys.length]? = some new := List.getElem?_concat_length
  have before : ∀ i, i < keys.length → (keys ++ [new])[i]? = keys[i]? := fun i inside =>
    List.getElem?_append_left inside
  have after : ∀ i, keys.length < i → (keys ++ [new])[i]? = none := by
    intro i outside
    rw [List.getElem?_eq_none_iff, List.length_append, List.length_singleton]
    omega
  constructor
  · rintro ⟨present, last⟩
    rcases Nat.lt_trichotomy place keys.length with inside | same | outside
    · have apart : key ≠ new := by
        rintro rfl
        exact last keys.length inside atEnd
      refine Or.inr ⟨apart, ?_, ?_⟩
      · rw [← before place inside]
        exact present
      · intro later beyond again
        have laterInside := (List.getElem?_eq_some_iff.mp again).1
        exact last later beyond ((before later laterInside).trans again)
    · rw [same, atEnd, Option.some.injEq] at present
      exact Or.inl ⟨present.symm, same⟩
    · rw [after place outside] at present
      cases present
  · rintro (⟨rfl, rfl⟩ | ⟨apart, present, last⟩)
    · refine ⟨atEnd, ?_⟩
      intro later beyond
      rw [after later beyond]
      exact nofun
    · have inside := (List.getElem?_eq_some_iff.mp present).1
      refine ⟨(before place inside).trans present, ?_⟩
      intro later beyond again
      rcases Nat.lt_trichotomy later keys.length with laterInside | same | outside
      · exact last later beyond ((before later laterInside).symm.trans again)
      · rw [same, atEnd, Option.some.injEq] at again
        exact apart again.symm
      · rw [after later outside] at again
        cases again

theorem exists_isLastPlace {keys : List Key} {key : Key} (member : key ∈ keys) :
    ∃ place, IsLastPlace keys key place := by
  induction keys using List.reverseRecOn with
  | nil => cases member
  | append_singleton keys new ih =>
    by_cases same : key = new
    · exact ⟨keys.length, isLastPlace_append.mpr (Or.inl ⟨same, rfl⟩)⟩
    · have earlier : key ∈ keys := by simpa [same] using member
      obtain ⟨place, last⟩ := ih earlier
      exact ⟨place, isLastPlace_append.mpr (Or.inr ⟨same, last⟩)⟩

def lastWithKey (key : Key) (records : List ThroughputRecord) : Option ThroughputRecord :=
  (records.filter fun r => r.key = key).getLast?

theorem lastWithKey_eq_none_iff (key : Key) (records : List ThroughputRecord) :
    lastWithKey key records = none ↔ ∀ r ∈ records, r.key ≠ key := by
  unfold lastWithKey
  rw [List.getLast?_eq_none_iff, List.filter_eq_nil_iff]
  simp only [decide_eq_true_eq, ne_eq]

theorem exists_lastWithKey {records : List ThroughputRecord} {r : ThroughputRecord} {key : Key}
    (member : r ∈ records) (same : r.key = key) : ∃ last, lastWithKey key records = some last := by
  apply Option.ne_none_iff_exists'.mp
  rw [ne_eq, lastWithKey_eq_none_iff]
  exact fun absent => absent r member same

theorem key_of_lastWithKey {key : Key} {records : List ThroughputRecord} {r : ThroughputRecord}
    (last : lastWithKey key records = some r) : r ∈ records ∧ r.key = key := by
  have member := List.mem_of_getLast? last
  rw [List.mem_filter, decide_eq_true_iff] at member
  exact member

theorem lastWithKey_of_isLastPlace {records : List ThroughputRecord} {key : Key} {place : Nat}
    (last : IsLastPlace (records.map (·.key)) key place) :
    lastWithKey key records = records[place]? := by
  have inside : place < records.length := by simpa only [List.length_map] using last.lt_length
  have own : records[place].key = key := by
    have present := last.1
    rw [List.getElem?_map, List.getElem?_eq_getElem inside, Option.map_some,
      Option.some.injEq] at present
    exact present
  have noLater : (records.drop (place + 1)).filter (fun r => r.key = key) = [] := by
    apply List.filter_eq_nil_iff.mpr
    intro r member same
    obtain ⟨i, found⟩ := List.mem_iff_getElem?.mp member
    rw [List.getElem?_drop] at found
    apply last.2 (place + 1 + i) (by omega)
    rw [List.getElem?_map, found, Option.map_some, of_decide_eq_true same]
  have parts : records = records.take place ++ records[place] :: records.drop (place + 1) := by
    rw [List.getElem_cons_drop, List.take_append_drop]
  -- Nothing with the key stands behind the place, so the records with the key end there.
  calc lastWithKey key records
      = lastWithKey key (records.take place ++ records[place] :: records.drop (place + 1)) :=
        congrArg (lastWithKey key) parts
    _ = some records[place] := by
        unfold lastWithKey
        rw [List.filter_append, List.filter_cons_of_pos (by simpa using own), noLater,
          List.getLast?_concat]
    _ = records[place]? := (List.getElem?_eq_getElem inside).symm

namespace Aggregation.Tally

/-- The tally knows of every key its last place, and of both coordinates which occur. -/
structure Counts (t : Tally) (keys : List Key) : Prop where
  latest : ∀ key place, t.latest.get? key = some place ↔ IsLastPlace keys key place
  queueSizes : ∀ q, q ∈ t.queueSizes.keys ↔ q ∈ keys.map (·.queueSize)
  producerCounts : ∀ p, p ∈ t.producerCounts.keys ↔ p ∈ keys.map (·.producerCount)

theorem counts_empty : empty.Counts [] := by
  refine ⟨?_, ?_, ?_⟩
  · intro key place
    exact iff_of_false nofun (not_isLastPlace_nil key place)
  · intro q
    exact iff_of_false nofun nofun
  · intro p
    exact iff_of_false nofun nofun

theorem Counts.put {t : Tally} {keys : List Key} (counted : t.Counts keys) (key : Key) :
    (t.put keys.length key).Counts (keys ++ [key]) := by
  refine ⟨?_, ?_, ?_⟩
  · intro other place
    change (t.latest.insert key keys.length).get? other = some place ↔ _
    rw [Table.get?_insert, isLastPlace_append]
    by_cases same : other = key
    · simp only [same, ↓reduceIte, Option.some.injEq, true_and, ne_eq, not_true_eq_false,
        false_and, or_false, eq_comm]
    · simp only [same, ↓reduceIte, counted.latest other place, false_and, ne_eq, not_false_eq_true,
        true_and, false_or]
  · intro q
    change q ∈ (t.queueSizes.insert key.queueSize ()).keys ↔ _
    rw [Table.mem_keys_insert, counted.queueSizes, List.map_append, List.mem_append,
      List.map_singleton, List.mem_singleton, or_comm]
  · intro p
    change p ∈ (t.producerCounts.insert key.producerCount ()).keys ↔ _
    rw [Table.mem_keys_insert, counted.producerCounts, List.map_append, List.mem_append,
      List.map_singleton, List.mem_singleton, or_comm]

theorem eq_put_of_add {policy : DuplicatePolicy} {t next : Tally} {place : Nat} {key : Key}
    (added : t.add policy place key = .ok next) : next = t.put place key := by
  unfold add at added
  split at added
  · cases added
  · exact (Except.ok.inj added).symm

/-- Counting on from a tally of the keys so far gives a tally of all keys. -/
theorem Counts.addAll {policy : DuplicatePolicy} {t final : Tally} {keys more : List Key}
    (counted : t.Counts keys) (ran : t.addAll policy keys.length more = .ok final) :
    final.Counts (keys ++ more) := by
  induction more generalizing t keys with
  | nil =>
    rw [List.append_nil, ← Except.ok.inj ran]
    exact counted
  | cons key rest ih =>
    unfold Tally.addAll at ran
    cases added : t.add policy keys.length key with
    | error e =>
      rw [added] at ran
      cases ran
    | ok next =>
      rw [added] at ran
      -- The place of the next key is the number of keys counted, which keeps the places right.
      have counts := eq_put_of_add added ▸ counted.put key
      have length : keys.length + 1 = (keys ++ [key]).length := by simp
      rw [List.append_cons]
      exact ih counts (length ▸ ran)

theorem add_lastWriteWins (t : Tally) (place : Nat) (key : Key) :
    t.add .lastWriteWins place key = .ok (t.put place key) := by
  unfold add
  cases t.latest.get? key with
  | none => rfl
  | some _ => rfl

/-- A policy that never stops counts to the end. -/
theorem exists_addAll_lastWriteWins (keys : List Key) (t : Tally) (place : Nat) :
    ∃ final, t.addAll .lastWriteWins place keys = .ok final := by
  induction keys generalizing t place with
  | nil => exact ⟨t, rfl⟩
  | cons key rest ih =>
    obtain ⟨final, ran⟩ := ih (t.put place key) (place + 1)
    refine ⟨final, ?_⟩
    unfold Tally.addAll
    rw [add_lastWriteWins]
    exact ran

theorem survivors_perm (t : Tally) (records : List ThroughputRecord) :
    (t.survivors records).Perm (t.latest.entries.filterMap fun e => records[e.2]?) := by
  have values : (t.latest.values.filterMap fun i => records[i]?) =
      t.latest.entries.filterMap fun e => records[e.2]? := by
    unfold Table.values
    rw [List.filterMap_map]
    rfl
  rw [← values]
  exact (List.mergeSort_perm _ _).filterMap _

/-- What an entry of the tally leads to has the key of the entry. -/
theorem filter_record_of_entry {t : Tally} {records : List ThroughputRecord}
    (counted : t.Counts (records.map (·.key))) (key : Key) {e : Key × Nat}
    (member : e ∈ t.latest.entries) :
    (records[e.2]?).filter (fun r => r.key = key) =
      if decide (e.1 = key) then records[e.2]? else none := by
  have last := (counted.latest e.1 e.2).mp ((Table.get?_eq_some_iff _ _ _).mpr member)
  rw [← lastWithKey_of_isLastPlace last]
  cases found : lastWithKey e.1 records with
  | none => rw [Option.filter_none, ite_self]
  | some r => rw [← (key_of_lastWithKey found).2, Option.filter_some]

theorem record_of_latest {t : Tally} {records : List ThroughputRecord}
    (counted : t.Counts (records.map (·.key))) (key : Key) :
    ((t.latest.get? key).bind fun place => records[place]?) = lastWithKey key records := by
  cases found : t.latest.get? key with
  | none =>
    symm
    rw [Option.bind_none, lastWithKey_eq_none_iff]
    intro r member same
    obtain ⟨place, last⟩ := exists_isLastPlace (List.mem_map_of_mem (f := (·.key)) member)
    rw [same, ← counted.latest, found] at last
    cases last
  | some place => exact (lastWithKey_of_isLastPlace ((counted.latest key place).mp found)).symm

/-- The tally keeps one record of every key that occurs, the last one. -/
theorem filter_survivors {t : Tally} {records : List ThroughputRecord}
    (counted : t.Counts (records.map (·.key))) (key : Key) :
    (t.survivors records).filter (fun r => r.key = key) = (lastWithKey key records).toList := by
  have entries : (t.latest.entries.filterMap fun e => records[e.2]?).filter (fun r => r.key = key) =
      (((t.latest.get? key).map fun place => (key, place)).toList.filterMap
        fun e => records[e.2]?) := by
    rw [List.filter_filterMap, ← Table.filter_entries, List.filterMap_filter]
    exact List.filterMap_congr fun e member => filter_record_of_entry counted key member
  have one : (((t.latest.get? key).map fun place => (key, place)).toList.filterMap
      fun e => records[e.2]?) = (lastWithKey key records).toList := by
    rw [← record_of_latest counted]
    cases t.latest.get? key with
    | none => rfl
    | some place => cases here : records[place]? <;> simp [here]
  apply eq_toList_of_perm
  rw [← one, ← entries]
  exact (survivors_perm t records).filter fun r => r.key = key

/-- No two survivors share a key. -/
theorem nodup_keys_survivors {t : Tally} {records : List ThroughputRecord}
    (counted : t.Counts (records.map (·.key))) : ((t.survivors records).map (·.key)).Nodup := by
  refine List.nodup_iff_count_le_one.mpr fun key => ?_
  have counts : ((t.survivors records).map (·.key)).count key =
      ((t.survivors records).filter fun r => r.key = key).length := by
    rw [List.count, List.countP_map, List.countP_eq_length_filter]
    congr 1
  rw [counts, filter_survivors counted]
  cases lastWithKey key records <;> simp

/-- Every key that occurs has a survivor. -/
theorem mem_keys_survivors {t : Tally} {records : List ThroughputRecord}
    (counted : t.Counts (records.map (·.key))) (key : Key) :
    key ∈ (t.survivors records).map (·.key) ↔ key ∈ records.map (·.key) := by
  have absent (rs : List ThroughputRecord) :
      rs.filter (fun r => r.key = key) = [] ↔ key ∉ rs.map (·.key) := by
    rw [List.filter_eq_nil_iff]
    simp
  rw [← not_iff_not, ← absent, ← absent, filter_survivors counted, Option.toList_eq_nil_iff,
    lastWithKey, List.getLast?_eq_none_iff]

end Aggregation.Tally

end QueueBench
