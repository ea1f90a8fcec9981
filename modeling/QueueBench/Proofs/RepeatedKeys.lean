import Mathlib.Data.List.Nodup
import QueueBench.Proofs.TallySurvivors

set_option autoImplicit false

namespace QueueBench.Aggregation

/-- The first key that repeats an earlier one: those before it differ, and it is among them. -/
def FirstRepeat (keys : List Key) (key : Key) : Prop :=
  ∃ before after, keys = before ++ key :: after ∧ before.Nodup ∧ key ∈ before

theorem FirstRepeat.not_nodup {keys : List Key} {key : Key} (again : FirstRepeat keys key) :
    ¬ keys.Nodup := by
  obtain ⟨before, after, rfl, -, member⟩ := again
  intro once
  rw [List.nodup_append_comm] at once
  exact (List.nodup_cons.mp once).1 (List.mem_append_right after member)

/-- No more than one key is the first to come again. -/
theorem FirstRepeat.unique {keys : List Key} {key key' : Key} (again : FirstRepeat keys key)
    (again' : FirstRepeat keys key') : key = key' := by
  obtain ⟨before, after, rfl, once, member⟩ := again
  obtain ⟨before', after', same, once', member'⟩ := again'
  rcases List.append_eq_append_iff.mp same with ⟨between, rfl, rest⟩ | ⟨between, rfl, rest⟩
  · cases between with
    | nil => exact (List.cons.inj rest).1
    | cons first more =>
      rw [(List.cons.inj rest).1] at member
      rw [List.nodup_append_comm] at once'
      exact absurd (List.mem_append_right more member) (List.nodup_cons.mp once').1
  · cases between with
    | nil => exact (List.cons.inj rest).1.symm
    | cons first more =>
      rw [(List.cons.inj rest).1] at member'
      rw [List.nodup_append_comm] at once
      exact absurd (List.mem_append_right more member') (List.nodup_cons.mp once).1

namespace Tally

theorem add_reject {t : Tally} {seen : List Key} (counted : t.Counts seen) (key : Key) :
    t.add .reject seen.length key =
      if key ∈ seen then .error (.duplicateKey key) else .ok (t.put seen.length key) := by
  unfold add
  cases found : t.latest.get? key with
  | none =>
    have fresh : key ∉ seen := by
      intro member
      obtain ⟨place, last⟩ := exists_isLastPlace member
      rw [(counted.latest key place).mpr last] at found
      cases found
    rw [if_neg fresh]
  | some place =>
    have last := (counted.latest key place).mp found
    rw [if_pos (List.mem_of_getElem? last.1)]

/-- From a tally of distinct keys on, counting goes to the end of the keys or stops at the first
that comes again. -/
theorem addAll_reject {t : Tally} {seen : List Key} (counted : t.Counts seen) (once : seen.Nodup)
    (more : List Key) :
    ((seen ++ more).Nodup ∧ ∃ final, t.addAll .reject seen.length more = .ok final) ∨
      ∃ key, FirstRepeat (seen ++ more) key ∧
        t.addAll .reject seen.length more = .error (.duplicateKey key) := by
  induction more generalizing t seen with
  | nil =>
    rw [List.append_nil]
    exact .inl ⟨once, t, rfl⟩
  | cons key rest ih =>
    have added := add_reject counted key
    unfold Tally.addAll
    by_cases member : key ∈ seen
    · rw [if_pos member] at added
      rw [added]
      exact .inr ⟨key, ⟨seen, rest, rfl, once, member⟩, rfl⟩
    · rw [if_neg member] at added
      rw [added, List.append_cons]
      have still : (seen ++ [key]).Nodup := by
        rw [List.nodup_append_comm]
        exact List.nodup_cons.mpr ⟨member, once⟩
      have length : seen.length + 1 = (seen ++ [key]).length := by simp
      exact length ▸ ih (counted.put key) still

end Tally

/-- Aggregation that rejects repeated keys fails at the first of them, and only there. -/
theorem ofRecords_reject (mops : ThroughputRecord → Float) (records : List ThroughputRecord) :
    ((records.map (·.key)).Nodup ∧ ∃ a, ofRecords .reject mops records = .ok a) ∨
      ∃ key, FirstRepeat (records.map (·.key)) key ∧
        ofRecords .reject mops records = .error (.duplicateKey key) := by
  unfold ofRecords
  rcases Tally.addAll_reject Tally.counts_empty List.nodup_nil (records.map (·.key)) with
    ⟨once, final, ran⟩ | ⟨key, again, ran⟩
  · rw [show ([] : List Key).length = 0 from rfl] at ran
    rw [ran]
    exact .inl ⟨once, _, rfl⟩
  · rw [show ([] : List Key).length = 0 from rfl] at ran
    rw [ran]
    exact .inr ⟨key, again, rfl⟩

end QueueBench.Aggregation
