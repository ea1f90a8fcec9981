import QueueBench.Proofs.FirstReadings
import QueueBench.Settings.Basic

set_option autoImplicit false

namespace QueueBench

namespace Settings

theorem metricFault?_of_fault? {settings : Settings} (accepted : settings.fault? = none)
    {metric event : String} (listed : (metric, event) ∈ settings.metrics.entries) :
    metricFault? metric event = none := by
  unfold fault? at accepted
  split at accepted
  · cases accepted
  split at accepted
  · cases accepted
  split at accepted
  · cases accepted
  split at accepted
  · cases accepted
  · rename_i faultless
    exact List.findSome?_eq_none_iff.mp faultless (metric, event) listed

/-- An event name that was accepted is one word without a colon. -/
theorem event_of_fault? {settings : Settings} (accepted : settings.fault? = none)
    {metric event : String} (listed : (metric, event) ∈ settings.metrics.entries) :
    event.toList ≠ [] ∧ ∀ c ∈ event.toList, c ≠ ':' ∧ Text.isBlank c = false := by
  have faultless := metricFault?_of_fault? accepted listed
  unfold metricFault? at faultless
  split at faultless
  · cases faultless
  split at faultless
  · rename_i named
    simp only [isEventName, Bool.and_eq_true, Bool.not_eq_true', List.all_eq_true, bne_iff_ne,
      String.isEmpty_eq_false_iff] at named
    refine ⟨fun empty => named.1 (String.toList_eq_nil_iff.mp empty), named.2⟩
  · cases faultless

end Settings

theorem baseEvent_bare {event : String} (bare : ':' ∉ event.toList) : baseEvent event = event := by
  rw [baseEvent, Text.before_whole bare, String.ofList_toList]

theorem baseEvent_modified {event : String} (bare : ':' ∉ event.toList) (modifiers : String) :
    baseEvent (event ++ ":" ++ modifiers) = event := by
  have letters : (event ++ ":" ++ modifiers).toList =
      event.toList ++ ':' :: modifiers.toList := by
    simp
  rw [baseEvent, letters, Text.before_append bare, String.ofList_toList]

namespace Dump

def line (n : UInt64) (event : String) : List Char :=
  Decimal.digits n.toNat ++ ' ' :: event.toList

section Line

variable {event : String} (nonempty : event.toList ≠ [])
  (word : ∀ c ∈ event.toList, Text.isBlank c = false ∧ c ≠ '#')
include nonempty word

theorem spells_line (n : UInt64) : Spells (line n event) event n := by
  refine ⟨[], Decimal.digits n.toNat, [' '], [], [], ?_, ⟨?_, ?_⟩, ?_, ⟨nonempty, word⟩, ?_⟩
  · simp [line]
  · intro c member
    rw [List.mem_singleton.mp member]
    rfl
  · exact List.cons_ne_nil _ _
  · exact Decimal.denotes_digits 0 n.toNat
  · intro c here
    cases here

theorem readings_line (n : UInt64) : readings (line n event) = [(event, n)] := by
  have unbroken : '\n' ∉ line n event := by
    intro member
    rcases List.mem_append.mp member with count | later
    · exact absurd (Decimal.isDigit_of_mem_digits count) (by decide)
    · rcases List.mem_cons.mp later with space | name
      · exact absurd space (by decide)
      · exact Text.ne_of_isBlank (word '\n' name).1 (by decide) rfl
  rw [readings_unbroken unbroken, parseLine_of_spells (spells_line nonempty word n)]
  rfl

end Line

theorem firstCount_single {name event : String} (base : baseEvent name = event) (n : UInt64) :
    firstCount [(name, n)] event = n :=
  firstCount_cons (r := (name, n)) base []

/-- No line gives an event whose name has the sign of a remark. -/
theorem firstCount_of_remark {event : String} (remark : '#' ∈ event.toList) (text : List Char) :
    firstCount (readings text) event = 0 := by
  apply firstCount_of_not_read
  rintro ⟨reading, read, rfl⟩
  obtain ⟨cs, -, parsed⟩ := List.mem_filterMap.mp read
  rw [baseEvent, String.toList_ofList] at remark
  exact not_mem_of_parseLine parsed (Text.before_subset ':' _ remark)

/-- A metric of accepted settings is read off the line of its event, with or without modifiers,
unless the name of the event has the sign of a remark; then it is zero in every dump. -/
theorem counters_are_collected_unless_remarked {settings : Settings}
    (accepted : settings.fault? = none) {metric event : String}
    (listed : (metric, event) ∈ settings.metrics.entries) :
    ('#' ∉ event.toList → ∀ (n : UInt64) (modifiers : String),
      (∀ c ∈ modifiers.toList, Text.isBlank c = false ∧ c ≠ '#') →
        (extract settings.metrics (line n event)).get? metric = some n ∧
          (extract settings.metrics (line n (event ++ ":" ++ modifiers))).get? metric = some n) ∧
    ('#' ∈ event.toList → ∀ text, (extract settings.metrics text).get? metric = some 0) := by
  obtain ⟨nonempty, letters⟩ := Settings.event_of_fault? accepted listed
  have bare : ':' ∉ event.toList := fun member => (letters ':' member).1 rfl
  refine ⟨?collected, ?remarked⟩
  case collected =>
    intro plain n modifiers solid
    have word : ∀ c ∈ event.toList, Text.isBlank c = false ∧ c ≠ '#' := by
      intro c member
      refine ⟨(letters c member).2, ?_⟩
      rintro rfl
      exact plain member
    have modified : (event ++ ":" ++ modifiers).toList =
        event.toList ++ ':' :: modifiers.toList := by
      simp
    rw [get?_extract listed, get?_extract listed]
    constructor
    · rw [readings_line nonempty word, firstCount_single (baseEvent_bare bare)]
    · rw [readings_line, firstCount_single (baseEvent_modified bare modifiers)]
      · rw [modified]
        exact List.append_ne_nil_of_left_ne_nil nonempty _
      · intro c member
        rw [modified, List.mem_append, List.mem_cons] at member
        rcases member with name | rfl | modifier
        · exact word c name
        · decide
        · exact solid c modifier
  case remarked =>
    intro remark text
    rw [get?_extract listed, firstCount_of_remark remark]

def asking (metric event : String) : Settings :=
  { Settings.standard with metrics := Table.ofList [(metric, event)] }

theorem counters_are_collected_unless_remarked_modified :
    (asking "llc" "cache-misses").fault? = none ∧
      ("llc", "cache-misses") ∈ (asking "llc" "cache-misses").metrics.entries ∧
        (extract (asking "llc" "cache-misses").metrics
          (line 77 ("cache-misses" ++ ":" ++ "u:k"))).get? "llc" = some 77 := by
  have accepted : (asking "llc" "cache-misses").fault? = none := by decide
  have listed : ("llc", "cache-misses") ∈ (asking "llc" "cache-misses").metrics.entries := by decide
  obtain ⟨collected, -⟩ := counters_are_collected_unless_remarked accepted listed
  have plain : '#' ∉ "cache-misses".toList := by decide +kernel
  have solid : ∀ c ∈ "u:k".toList, Text.isBlank c = false ∧ c ≠ '#' := by
    have letters : "u:k".toList = ['u', ':', 'k'] := by decide +kernel
    rw [letters, List.forall_mem_cons, List.forall_mem_cons, List.forall_mem_singleton]
    decide
  exact ⟨accepted, listed, (collected plain 77 "u:k" solid).2⟩

/-- An accepted event whose name the cut of remarks shortens: its own line gives nothing. -/
theorem accepted_event_is_never_collected :
    (asking "llc" "cache#misses").fault? = none ∧
      ("llc", "cache#misses") ∈ (asking "llc" "cache#misses").metrics.entries ∧
        (extract (asking "llc" "cache#misses").metrics (line 77 "cache#misses")).get? "llc" =
          some 0 := by
  decide

end Dump

end QueueBench
