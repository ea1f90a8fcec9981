import QueueBench.Proofs.CounterLines
import QueueBench.Proofs.NormalForms

set_option autoImplicit false

namespace QueueBench

theorem Catalog.mem_metricsFor_iff {catalog : Catalog} {metric event : String} :
    metric ∈ catalog.metricsFor event ↔ catalog.get? metric = some (baseEvent event) := by
  rw [Table.get?_eq_some_iff, metricsFor, List.mem_map]
  simp only [List.mem_filter, beq_iff_eq, Prod.exists, exists_and_right, exists_eq_right]

namespace Dump

/-- The count of the first reading of an event, or zero. -/
def firstCount (readings : List (String × UInt64)) (event : String) : UInt64 :=
  match readings.find? fun r => baseEvent r.1 == event with
  | some r => r.2
  | none => 0

def IsRead (readings : List (String × UInt64)) (event : String) : Prop :=
  ∃ r ∈ readings, baseEvent r.1 = event

theorem firstCount_append_of_read {taken : List (String × UInt64)} {event : String}
    (read : IsRead taken event) (more : List (String × UInt64)) :
    firstCount (taken ++ more) event = firstCount taken event := by
  obtain ⟨r, member, base⟩ := read
  have found : (taken.find? fun r => baseEvent r.1 == event).isSome = true :=
    List.find?_isSome.mpr ⟨r, member, beq_iff_eq.mpr base⟩
  rw [firstCount, firstCount, List.find?_append]
  cases first : taken.find? fun r => baseEvent r.1 == event with
  | some r => rfl
  | none =>
    rw [first] at found
    cases found

theorem firstCount_append_of_not_read {taken : List (String × UInt64)} {event : String}
    (unread : ¬ IsRead taken event) (more : List (String × UInt64)) :
    firstCount (taken ++ more) event = firstCount more event := by
  have none : (taken.find? fun r => baseEvent r.1 == event) = none := by
    apply List.find?_eq_none.mpr
    intro r member same
    exact unread ⟨r, member, beq_iff_eq.mp same⟩
  rw [firstCount, firstCount, List.find?_append, none, Option.none_or]

theorem firstCount_of_not_read {taken : List (String × UInt64)} {event : String}
    (unread : ¬ IsRead taken event) : firstCount taken event = 0 := by
  have alone := firstCount_append_of_not_read unread []
  rwa [List.append_nil] at alone

theorem firstCount_cons {r : String × UInt64} {event : String} (base : baseEvent r.1 = event)
    (more : List (String × UInt64)) : firstCount (r :: more) event = r.2 := by
  rw [firstCount, List.find?_cons_of_pos (by simpa using base)]

theorem isRead_singleton_iff {r : String × UInt64} {event : String} :
    IsRead [r] event ↔ baseEvent r.1 = event := by
  simp only [IsRead, List.mem_singleton, exists_eq_left]

theorem isRead_concat_iff {taken : List (String × UInt64)} {r : String × UInt64} {event : String} :
    IsRead (taken ++ [r]) event ↔ IsRead taken event ∨ baseEvent r.1 = event := by
  simp only [IsRead, List.mem_append, List.mem_singleton, or_and_right, exists_or,
    exists_eq_left]

namespace Collection

theorem mem_decided_take {n : UInt64} {c : Collection} {metric other : String} :
    other ∈ (c.take n metric).decided ↔ other ∈ c.decided ∨ other = metric := by
  unfold take
  split
  · rename_i before
    constructor
    · exact Or.inl
    · rintro (member | rfl)
      · exact member
      · exact before
  · rw [List.mem_cons, or_comm]

theorem get?_counts_take (n : UInt64) (c : Collection) (metric other : String) :
    (c.take n metric).counts.get? other =
      if other = metric ∧ other ∉ c.decided then some n else c.counts.get? other := by
  unfold take
  by_cases before : metric ∈ c.decided
  · rw [if_pos before, if_neg]
    rintro ⟨rfl, undecided⟩
    exact undecided before
  · rw [if_neg before, Table.get?_insert]
    by_cases same : other = metric
    · rw [if_pos same, if_pos ⟨same, same ▸ before⟩]
    · rw [if_neg same, if_neg fun both => same both.1]

theorem mem_decided_foldl_take {n : UInt64} {metrics : List String} {c : Collection}
    {other : String} :
    other ∈ (metrics.foldl (take n) c).decided ↔ other ∈ c.decided ∨ other ∈ metrics := by
  induction metrics generalizing c with
  | nil => simp
  | cons metric metrics ih => rw [List.foldl_cons, ih, mem_decided_take, List.mem_cons, or_assoc]

/-- A reading changes the counts of those of its metrics that are not decided, whatever their
order. -/
theorem get?_counts_foldl_take (n : UInt64) (metrics : List String) (c : Collection)
    (other : String) :
    (metrics.foldl (take n) c).counts.get? other =
      if other ∈ metrics ∧ other ∉ c.decided then some n else c.counts.get? other := by
  induction metrics generalizing c with
  | nil => simp
  | cons metric metrics ih =>
    simp only [List.foldl_cons, ih, get?_counts_take, mem_decided_take, List.mem_cons]
    by_cases before : other ∈ c.decided
    · simp [before]
    · by_cases same : other = metric <;> simp [before, same]

/-- What holds after some readings: a metric of the catalog is decided if its event has been read,
and has the count of the first such reading, or zero. -/
structure Follows (catalog : Catalog) (taken : List (String × UInt64)) (c : Collection) :
    Prop where
  counts : ∀ metric, c.counts.get? metric = (catalog.get? metric).map (firstCount taken)
  decided : ∀ metric event, catalog.get? metric = some event →
    (metric ∈ c.decided ↔ IsRead taken event)

theorem follows_start (catalog : Catalog) : Follows catalog [] ⟨catalog.zeroed, []⟩ where
  counts metric := by
    rw [Catalog.zeroed, Table.get?_mapValues]
    rfl
  decided metric event _ := by
    simp [IsRead]

variable {catalog : Catalog} {taken : List (String × UInt64)} {c : Collection}

theorem Follows.read (follows : c.Follows catalog taken) (r : String × UInt64) :
    (c.read catalog r).Follows catalog (taken ++ [r]) where
  counts metric := by
    simp only [Collection.read, get?_counts_foldl_take, follows.counts,
      Catalog.mem_metricsFor_iff]
    cases found : catalog.get? metric with
    | none => simp
    | some event =>
      have decided := follows.decided metric event found
      rw [Option.map_some, Option.map_some]
      by_cases before : IsRead taken event
      · rw [if_neg fun both => both.2 (decided.mpr before), firstCount_append_of_read before]
      · have undecided : metric ∉ c.decided := fun settled => before (decided.mp settled)
        rw [firstCount_append_of_not_read before]
        by_cases same : baseEvent r.1 = event
        · rw [if_pos ⟨congrArg some same.symm, undecided⟩, firstCount_cons same]
        · have apart : ¬ IsRead [r] event := fun read => same (isRead_singleton_iff.mp read)
          rw [if_neg fun both => same (Option.some.inj both.1).symm,
            firstCount_of_not_read before, firstCount_of_not_read apart]
  decided metric event found := by
    rw [Collection.read, mem_decided_foldl_take, follows.decided metric event found,
      Catalog.mem_metricsFor_iff, found, Option.some.injEq, isRead_concat_iff, eq_comm]

theorem Follows.foldl (follows : c.Follows catalog taken) (more : List (String × UInt64)) :
    (more.foldl (Collection.read catalog) c).Follows catalog (taken ++ more) := by
  induction more generalizing taken c with
  | nil =>
    rw [List.append_nil]
    exact follows
  | cons r more ih =>
    have next := ih (follows.read r)
    rwa [List.append_assoc, List.singleton_append] at next

end Collection

/-- Reading a dump gives every metric the count of the first reading of its event. -/
theorem extract_eq_mapValues (catalog : Catalog) (text : List Char) :
    extract catalog text = catalog.mapValues (firstCount (readings text)) := by
  apply Table.ext_get?
  intro metric
  have follows := (Collection.follows_start catalog).foldl (readings text)
  rw [extract, follows.counts, Table.get?_mapValues, List.nil_append]

theorem get?_extract {catalog : Catalog} {metric event : String}
    (listed : (metric, event) ∈ catalog.entries) (text : List Char) :
    (extract catalog text).get? metric = some (firstCount (readings text) event) := by
  have found := (catalog.get?_eq_some_iff metric event).mpr listed
  rw [extract_eq_mapValues, Table.get?_mapValues, found]
  rfl

/-- The line is accepted as a count of the event. In the line a colon ends the event's name, and its
modifiers follow. -/
def Counts (line : List Char) (event : String) (n : UInt64) : Prop :=
  ∃ name, parseLine line = some (name, n) ∧
    String.ofList (name.toList.takeWhile (· != ':')) = event

/-- The first of the lines that count the event gives this count. -/
def FirstCounts (lines : List (List Char)) (event : String) (n : UInt64) : Prop :=
  ∃ before line after, lines = before ++ line :: after ∧ Counts line event n ∧
    ∀ earlier ∈ before, ∀ m, ¬ Counts earlier event m

def NeverCounts (lines : List (List Char)) (event : String) : Prop :=
  ∀ line ∈ lines, ∀ m, ¬ Counts line event m

section Lines

variable {lines : List (List Char)} {event : String} {n : UInt64}

theorem isRead_filterMap_iff :
    IsRead (lines.filterMap parseLine) event ↔ ∃ line ∈ lines, ∃ m, Counts line event m := by
  constructor
  · rintro ⟨⟨name, m⟩, member, base⟩
    obtain ⟨line, inside, parsed⟩ := List.mem_filterMap.mp member
    exact ⟨line, inside, m, name, parsed, base⟩
  · rintro ⟨line, inside, m, name, parsed, base⟩
    exact ⟨(name, m), List.mem_filterMap.mpr ⟨line, inside, parsed⟩, base⟩

theorem NeverCounts.not_read (never : NeverCounts lines event) :
    ¬ IsRead (lines.filterMap parseLine) event := by
  intro read
  obtain ⟨line, inside, m, counts⟩ := isRead_filterMap_iff.mp read
  exact never line inside m counts

theorem FirstCounts.firstCount_eq (first : FirstCounts lines event n) :
    firstCount (lines.filterMap parseLine) event = n := by
  obtain ⟨before, line, after, rfl, ⟨name, parsed, base⟩, earlier⟩ := first
  have unread : ¬ IsRead (before.filterMap parseLine) event := NeverCounts.not_read earlier
  rw [List.filterMap_append, firstCount_append_of_not_read unread,
    List.filterMap_cons_some parsed, firstCount_cons (r := (name, n)) base]

theorem firstCounts_or_neverCounts (lines : List (List Char)) (event : String) :
    (∃ n, FirstCounts lines event n) ∨ NeverCounts lines event := by
  induction lines with
  | nil => exact Or.inr fun line inside => nomatch inside
  | cons line lines ih =>
    by_cases here : ∃ n, Counts line event n
    · obtain ⟨n, counts⟩ := here
      exact Or.inl ⟨n, [], line, lines, rfl, counts, fun earlier inside => nomatch inside⟩
    · have silent : ∀ m, ¬ Counts line event m := not_exists.mp here
      rcases ih with ⟨n, before, next, after, rfl, counts, earlier⟩ | never
      · refine Or.inl ⟨n, line :: before, next, after, rfl, counts, ?_⟩
        exact List.forall_mem_cons.mpr ⟨silent, earlier⟩
      · exact Or.inr (List.forall_mem_cons.mpr ⟨silent, never⟩)

theorem firstCount_eq_iff :
    firstCount (lines.filterMap parseLine) event = n ↔
      FirstCounts lines event n ∨ n = 0 ∧ NeverCounts lines event := by
  constructor
  · intro count
    rcases firstCounts_or_neverCounts lines event with ⟨m, first⟩ | never
    · rw [first.firstCount_eq] at count
      rw [← count]
      exact Or.inl first
    · rw [firstCount_of_not_read never.not_read] at count
      exact Or.inr ⟨count.symm, never⟩
  · rintro (first | ⟨rfl, never⟩)
    · exact first.firstCount_eq
    · exact firstCount_of_not_read never.not_read

theorem FirstCounts.isRead (first : FirstCounts lines event n) :
    IsRead (lines.filterMap parseLine) event := by
  obtain ⟨before, line, after, rfl, counts, -⟩ := first
  exact isRead_filterMap_iff.mpr
    ⟨line, List.mem_append_right _ List.mem_cons_self, n, counts⟩

end Lines

/-- The metrics of a dump are those of the catalog, each with the count of the first line of its
event, or zero if there is none. That first count stays even if it is zero. Metrics of one event
have the same count, and no metric depends on the others of the catalog. -/
theorem first_line_of_an_event_decides (catalog : Catalog) (text : List Char) :
    (extract catalog text).keys = catalog.keys ∧
      (∀ metric event n, (metric, event) ∈ catalog.entries →
        ((extract catalog text).get? metric = some n ↔
          FirstCounts (Text.lines text) event n ∨
            n = 0 ∧ NeverCounts (Text.lines text) event)) ∧
      (∀ metric event n, (metric, event) ∈ catalog.entries →
        FirstCounts (Text.lines text) event n → ∀ more,
          (extract catalog (text ++ '\n' :: more)).get? metric = some n) ∧
      (∀ metric metric' event, (metric, event) ∈ catalog.entries →
        (metric', event) ∈ catalog.entries →
          (extract catalog text).get? metric = (extract catalog text).get? metric') ∧
      ∀ (other : Catalog) (metric : String), other.get? metric = catalog.get? metric →
        (extract other text).get? metric = (extract catalog text).get? metric := by
  refine ⟨?names, ?first, ?later, ?shared, ?apart⟩
  case names =>
    rw [extract_eq_mapValues, Table.keys_mapValues]
  case first =>
    intro metric event n listed
    rw [get?_extract listed, Option.some.injEq]
    exact firstCount_eq_iff
  case later =>
    intro metric event n listed first more
    have read : IsRead (readings text) event := first.isRead
    rw [get?_extract listed, readings_append, firstCount_append_of_read read]
    exact congrArg some first.firstCount_eq
  case shared =>
    intro metric metric' event listed listed'
    rw [get?_extract listed, get?_extract listed']
  case apart =>
    intro other metric same
    rw [extract_eq_mapValues, extract_eq_mapValues, Table.get?_mapValues, Table.get?_mapValues,
      same]

/-- A first count of zero is kept for both metrics of its event, whatever else is collected; a line
whose event has modifiers decides as well. -/
theorem first_line_of_an_event_decides_zero :
    let twoOfMisses : Catalog := Table.ofList [("first", "misses"), ("second", "misses")]
    let withHits : Catalog := twoOfMisses.insert "hits" "hits"
    let text := "<none> misses\n0 misses:u # none\n7 misses".toList
    let modified := "77 hits:u:k\n8 hits".toList
    (extract twoOfMisses text).get? "first" = some 0 ∧
      (extract twoOfMisses (text ++ '\n' :: "8 misses".toList)).get? "first" = some 0 ∧
      (extract twoOfMisses text).get? "second" = some 0 ∧
      (extract withHits text).get? "second" = some 0 ∧
      (extract withHits modified).get? "hits" = some 77 := by
  intro twoOfMisses withHits text modified
  obtain ⟨-, count, later, shared, apart⟩ := first_line_of_an_event_decides twoOfMisses text
  obtain ⟨-, countHits, -, -, -⟩ := first_line_of_an_event_decides withHits modified
  have first : ("first", "misses") ∈ twoOfMisses.entries := by decide
  have second : ("second", "misses") ∈ twoOfMisses.entries := by decide
  have hits : ("hits", "hits") ∈ withHits.entries := by decide
  have decides : FirstCounts (Text.lines text) "misses" 0 := by
    refine ⟨["<none> misses".toList], "0 misses:u # none".toList, ["7 misses".toList], ?_,
      ⟨"misses:u", ?_, ?_⟩, ?_⟩
    · decide +kernel
    · decide +kernel
    · decide +kernel
    · intro earlier inside m counts
      obtain ⟨name, parsed, -⟩ := counts
      have refused : parseLine "<none> misses".toList = none := by decide +kernel
      rw [List.mem_singleton.mp inside, refused] at parsed
      cases parsed
  have decidesHits : FirstCounts (Text.lines modified) "hits" 77 := by
    refine ⟨[], "77 hits:u:k".toList, ["8 hits".toList], ?_, ⟨"hits:u:k", ?_, ?_⟩, ?_⟩
    · decide +kernel
    · decide +kernel
    · decide +kernel
    · exact List.forall_mem_nil _
  have zero := (count "first" "misses" 0 first).mpr (Or.inl decides)
  have zero' := (shared "first" "second" "misses" first second).symm.trans zero
  have same : withHits.get? "second" = twoOfMisses.get? "second" := by decide
  exact ⟨zero, later "first" "misses" 0 first decides _, zero',
    (apart withHits "second" same).trans zero',
    (countHits "hits" "hits" 77 hits).mpr (Or.inl decidesHits)⟩

end Dump

end QueueBench
