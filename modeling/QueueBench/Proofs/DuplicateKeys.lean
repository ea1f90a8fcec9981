import QueueBench.Proofs.DirectoryRuns
import QueueBench.Proofs.RepeatedKeys
import QueueBench.Proofs.ViewAgreement

set_option autoImplicit false

namespace QueueBench.Aggregation

/-- The keys that repeat an earlier one, in order. -/
def repeats (keys : List Key) : List Key :=
  (keys.zipIdx.filter fun (key, place) => key ∈ keys.take place).map (·.1)

theorem repeats_concat (keys : List Key) (new : Key) :
    repeats (keys ++ [new]) = repeats keys ++ if new ∈ keys then [new] else [] := by
  have before : keys.zipIdx.filter (fun (key, place) => key ∈ (keys ++ [new]).take place) =
      keys.zipIdx.filter fun (key, place) => key ∈ keys.take place := by
    refine List.filter_congr fun (key, place) inside => ?_
    have within : place ≤ keys.length := by
      have bounds := List.mem_zipIdx inside
      omega
    dsimp only
    rw [List.take_append_of_le_length within]
  have last : ([(new, keys.length)].filter fun (key, place) =>
      key ∈ (keys ++ [new]).take place).map (·.1) = if new ∈ keys then [new] else [] := by
    by_cases member : new ∈ keys <;> simp [member]
  unfold repeats
  rw [List.zipIdx_append, List.filter_append, List.map_append, before, Nat.zero_add]
  exact congrArg _ last

/-- A key that occurs repeats one time fewer than it occurs. -/
theorem count_repeats (keys : List Key) (key : Key) :
    (repeats keys).count key + (if key ∈ keys then 1 else 0) = keys.count key := by
  induction keys using List.reverseRecOn with
  | nil => rfl
  | append_singleton keys new ih =>
    rw [repeats_concat, List.count_append, List.count_append]
    by_cases same : key = new
    · subst same
      by_cases member : key ∈ keys
      · rw [if_pos member] at ih
        simp only [member, ↓reduceIte, List.mem_append, true_or, List.count_singleton_self]
        omega
      · rw [if_neg member] at ih
        simp only [member, ↓reduceIte, List.mem_append, List.mem_singleton, or_true,
          List.count_singleton_self, List.count_nil]
        omega
    · have other : (if new ∈ keys then [new] else []).count key = 0 := by
        split <;> simp [Ne.symm same]
      have apart : [new].count key = 0 := by simp [Ne.symm same]
      rw [other, apart]
      simpa [same] using ih

/-- Distinct keys do not repeat. -/
theorem repeats_eq_nil_iff (keys : List Key) : repeats keys = [] ↔ keys.Nodup := by
  rw [List.nodup_iff_count_le_one, List.eq_nil_iff_forall_not_mem]
  refine forall_congr' fun key => ?_
  have counted := count_repeats keys key
  rw [← List.count_eq_zero]
  by_cases member : key ∈ keys
  · rw [if_pos member] at counted
    omega
  · have absent := List.count_eq_zero_of_not_mem member
    rw [if_neg member] at counted
    omega

/-- The keys are those that repeat and one of every key that occurs. -/
theorem perm_repeats {keys distinct : List Key} (once : distinct.Nodup)
    (same : ∀ key, key ∈ distinct ↔ key ∈ keys) : (repeats keys ++ distinct).Perm keys := by
  refine List.perm_iff_count.mpr fun key => ?_
  rw [List.count_append, once.count]
  simp only [same]
  exact count_repeats keys key

namespace Tally

theorem Counts.isSome_latest {t : Tally} {keys : List Key} (counted : t.Counts keys) (key : Key) :
    (t.latest.get? key).isSome = true ↔ key ∈ keys := by
  rw [Option.isSome_iff_exists]
  simp only [counted.latest]
  exact ⟨fun ⟨_, last⟩ => List.mem_of_getElem? last.1, exists_isLastPlace⟩

theorem duplicates_put {t : Tally} {keys : List Key} (counted : t.Counts keys)
    (known : t.duplicates = repeats keys) (key : Key) :
    (t.put keys.length key).duplicates = repeats (keys ++ [key]) := by
  have unfolded : (t.put keys.length key).duplicates =
      if (t.latest.get? key).isSome then t.duplicates ++ [key] else t.duplicates := rfl
  rw [unfolded, repeats_concat, known]
  by_cases member : key ∈ keys
  · rw [if_pos ((counted.isSome_latest key).mpr member), if_pos member]
  · rw [if_neg (fun found => member ((counted.isSome_latest key).mp found)), if_neg member,
      List.append_nil]

/-- A run to the end has noted every key that repeats. -/
theorem duplicates_addAll {policy : DuplicatePolicy} {t final : Tally} {keys more : List Key}
    (counted : t.Counts keys) (known : t.duplicates = repeats keys)
    (ran : t.addAll policy keys.length more = .ok final) :
    final.duplicates = repeats (keys ++ more) := by
  induction more generalizing t keys with
  | nil =>
    rw [List.append_nil, ← Except.ok.inj ran]
    exact known
  | cons key rest ih =>
    unfold Tally.addAll at ran
    cases added : t.add policy keys.length key with
    | error e =>
      rw [added] at ran
      cases ran
    | ok next =>
      rw [added] at ran
      obtain rfl := eq_put_of_add added
      have length : keys.length + 1 = (keys ++ [key]).length := by simp
      rw [List.append_cons]
      exact ih (counted.put key) (duplicates_put counted known key) (length ▸ ran)

/-- What a policy lets through is counted as under the policy that lets everything through. -/
theorem addAll_lastWriteWins_of_ok {policy : DuplicatePolicy} {t final : Tally} {place : Nat}
    {keys : List Key} (ran : t.addAll policy place keys = .ok final) :
    t.addAll .lastWriteWins place keys = .ok final := by
  induction keys generalizing t place with
  | nil => exact ran
  | cons key rest ih =>
    unfold Tally.addAll at ran ⊢
    cases added : t.add policy place key with
    | error e =>
      rw [added] at ran
      cases ran
    | ok next =>
      rw [added] at ran
      rw [add_lastWriteWins, ← eq_put_of_add added]
      exact ih ran

end Tally

theorem ofRecords_lastWriteWins_of_ok {policy : DuplicatePolicy} {mops : ThroughputRecord → Float}
    {records : List ThroughputRecord} {a : Aggregation}
    (succeeds : ofRecords policy mops records = .ok a) :
    ofRecords .lastWriteWins mops records = .ok a := by
  obtain ⟨t, ran, rfl⟩ := ofRecords_eq_ok succeeds
  unfold ofRecords
  rw [Tally.addAll_lastWriteWins_of_ok ran]
  rfl

/-- Duplicates and samples of an aggregation account for all its records. -/
theorem duplicates_of_ofRecords {policy : DuplicatePolicy} {mops : ThroughputRecord → Float}
    {records : List ThroughputRecord} {a : Aggregation}
    (succeeds : ofRecords policy mops records = .ok a) :
    a.duplicates = repeats (records.map (·.key)) ∧
      records.length = a.series.size + a.duplicates.length := by
  obtain ⟨t, ran, rfl⟩ := ofRecords_eq_ok succeeds
  have counted : t.Counts (records.map (·.key)) := by
    simpa only [List.nil_append] using Tally.counts_empty.addAll ran
  have noted : t.duplicates = repeats (records.map (·.key)) :=
    Tally.duplicates_addAll Tally.counts_empty rfl ran
  have size : (t.series mops records).size = (t.survivors records).length :=
    (Series.length_byQueueSize_sort _).trans (Series.length_byQueueSize_foldl_push _ _ _)
  have parts := (perm_repeats (Tally.nodup_keys_survivors counted)
    (Tally.mem_keys_survivors counted)).length_eq
  refine ⟨noted, ?_⟩
  rw [List.length_append, List.length_map, List.length_map] at parts
  show records.length = (t.series mops records).size + t.duplicates.length
  rw [size, noted]
  omega

/-- Rejecting fails with the first key that comes again and with nothing else. -/
theorem ofRecords_reject_eq_error_iff (mops : ThroughputRecord → Float)
    (records : List ThroughputRecord) (e : AggregationError) :
    ofRecords .reject mops records = .error e ↔
      ∃ key, FirstRepeat (records.map (·.key)) key ∧ e = .duplicateKey key := by
  rcases ofRecords_reject mops records with ⟨once, a, ran⟩ | ⟨key, again, ran⟩
  · rw [ran]
    refine iff_of_false nofun ?_
    rintro ⟨key, again, -⟩
    exact again.not_nodup once
  · rw [ran]
    constructor
    · intro failed
      exact ⟨key, again, (Except.error.inj failed).symm⟩
    · rintro ⟨key', again', rfl⟩
      rw [again.unique again']

/-- Under a valid window, rejecting repeated keys fails just if a key comes again, and then with the
first key that does; otherwise it gives what keeping the last record gives, without duplicates.
Keeping the last record notes every key that repeats an earlier one, in order. -/
theorem duplicates_are_exact (window : Float)
    (valid : AggregationRule.isValidWindow window = true) (records : List ThroughputRecord) :
    let keys := records.map (·.key)
    let rejecting := (Dataset.aggregate ⟨window, .reject⟩ records).value
    let keeping := (Dataset.aggregate ⟨window, .lastWriteWins⟩ records).value
    ((∃ failure, rejecting = .error failure) ↔
      ∃ i j, i < j ∧ j < keys.length ∧ keys[i]? = keys[j]?) ∧
    (∀ failure, rejecting = .error failure ↔
      ∃ key, FirstRepeat keys key ∧ failure = .aggregation (.duplicateKey key)) ∧
    (∀ a, rejecting = .ok a → keeping = .ok a ∧ a.duplicates = []) ∧
    ∃ a, keeping = .ok a ∧ a.duplicates = repeats keys ∧
      (∀ key ∈ keys, a.duplicates.count key + 1 = keys.count key) ∧
      records.length = a.series.size + a.duplicates.length := by
  intro keys rejecting keeping
  let mops := AggregationRule.mops ⟨window, .reject⟩
  have rejects : rejecting = (ofRecords .reject mops records).mapError .aggregation :=
    Dataset.aggregate_eq ⟨window, .reject⟩ valid records
  have keeps : keeping = (ofRecords .lastWriteWins mops records).mapError .aggregation :=
    Dataset.aggregate_eq ⟨window, .lastWriteWins⟩ valid records
  refine ⟨?_, ?_, ?_, ?_⟩
  · have twice : (∃ i j, i < j ∧ j < keys.length ∧ keys[i]? = keys[j]?) ↔ ¬ keys.Nodup := by
      rw [List.nodup_iff_getElem?_ne_getElem?]
      push Not
      rfl
    rw [twice, rejects]
    rcases ofRecords_reject mops records with ⟨once, a, ran⟩ | ⟨key, again, ran⟩
    · rw [ran]
      exact iff_of_false (by rintro ⟨_, failed⟩; cases failed) (not_not_intro once)
    · rw [ran]
      exact iff_of_true ⟨_, rfl⟩ again.not_nodup
  · intro failure
    rw [rejects]
    constructor
    · intro failed
      cases ran : ofRecords .reject mops records with
      | ok a =>
        rw [ran] at failed
        cases failed
      | error e =>
        obtain ⟨key, again, rfl⟩ := (ofRecords_reject_eq_error_iff mops records e).mp ran
        rw [ran] at failed
        exact ⟨key, again, (Except.error.inj failed).symm⟩
    · rintro ⟨key, again, rfl⟩
      rw [(ofRecords_reject_eq_error_iff mops records _).mpr ⟨key, again, rfl⟩]
      rfl
  · intro a succeeds
    rw [rejects] at succeeds
    rcases ofRecords_reject mops records with ⟨once, b, ran⟩ | ⟨key, again, ran⟩
    · rw [ran] at succeeds
      cases succeeds
      refine ⟨?_, ?_⟩
      · rw [keeps, ofRecords_lastWriteWins_of_ok ran]
        rfl
      · rw [(duplicates_of_ofRecords ran).1]
        exact (repeats_eq_nil_iff keys).mpr once
    · rw [ran] at succeeds
      cases succeeds
  · obtain ⟨a, ran, -⟩ := ofRecords_views_agree mops records
    obtain ⟨noted, whole⟩ := duplicates_of_ofRecords ran
    refine ⟨a, ?_, noted, fun key member => ?_, whole⟩
    · rw [keeps, ran]
      rfl
    · have counted := count_repeats keys key
      rw [if_pos member] at counted
      rw [noted]
      exact counted

/-- Three records of one key among others: the second and third of them are the duplicates. -/
theorem duplicates_are_exact_thrice :
    AggregationRule.isValidWindow 0.5 = true ∧
      let records : List ThroughputRecord :=
        [⟨⟨64, 2⟩, 1, ∅⟩, ⟨⟨32, 1⟩, 2, ∅⟩, ⟨⟨64, 2⟩, 3, ∅⟩, ⟨⟨64, 2⟩, 4, ∅⟩]
      (Dataset.aggregate ⟨0.5, .reject⟩ records).value =
          .error (.aggregation (.duplicateKey ⟨64, 2⟩)) ∧
        ∃ a, (Dataset.aggregate ⟨0.5, .lastWriteWins⟩ records).value = .ok a ∧
          a.duplicates = [⟨64, 2⟩, ⟨64, 2⟩] ∧ a.series.size = 2 := by
  have valid : AggregationRule.isValidWindow 0.5 = true := by decide
  obtain ⟨-, fails, -, a, ran, noted, -, whole⟩ := duplicates_are_exact 0.5 valid
    [⟨⟨64, 2⟩, 1, ∅⟩, ⟨⟨32, 1⟩, 2, ∅⟩, ⟨⟨64, 2⟩, 3, ∅⟩, ⟨⟨64, 2⟩, 4, ∅⟩]
  have twice : a.duplicates = [⟨64, 2⟩, ⟨64, 2⟩] := noted.trans (by decide)
  refine ⟨valid, (fails _).mpr ⟨⟨64, 2⟩, ?_, rfl⟩, a, ran, twice, ?_⟩
  · exact ⟨[⟨64, 2⟩, ⟨32, 1⟩], [⟨64, 2⟩], rfl, by decide, by decide⟩
  · rw [twice] at whole
    simpa using whole.symm

end QueueBench.Aggregation
