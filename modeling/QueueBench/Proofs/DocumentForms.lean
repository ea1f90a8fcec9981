import QueueBench.Proofs.TwoFieldRecords
import QueueBench.Throughput.Load

set_option autoImplicit false

namespace QueueBench

open Json Json.Reader

namespace ThroughputRecord

variable {name : String} {members : List (String × Json)} {v : Json}

theorem only?_eq_some : only? name members = some v ↔
    members.filter (fun m => m.1 == name) = [(name, v)] := by
  unfold only?
  split
  next m single =>
    have same : m.1 = name := by
      have member : m ∈ members.filter fun m => m.1 == name := by
        rw [single]
        exact List.mem_singleton_self m
      exact beq_iff_eq.mp (List.mem_filter.mp member).2
    obtain ⟨n, w⟩ := m
    subst same
    simp [single]
  next others =>
    simp only [reduceCtorEq, false_iff]
    exact others _

theorem only?_cons_self {w : Json} : only? name ((name, w) :: members) = some v ↔
    v = w ∧ ∀ m ∈ members, m.1 ≠ name := by
  have first : ((name, w).1 == name) = true := beq_self_eq_true name
  rw [only?_eq_some, List.filter_cons, if_pos first, List.cons_eq_cons, List.filter_eq_nil_iff]
  simp only [Prod.mk.injEq, true_and, beq_iff_eq, ne_eq, @eq_comm _ w]

theorem only?_cons_other {n : String} (other : n ≠ name) {w : Json} :
    only? name ((n, w) :: members) = only? name members := by
  simp only [only?, List.filter_cons, beq_iff_eq, other, ↓reduceIte]

end ThroughputRecord

namespace Json.Reader

open ThroughputRecord (only?)

variable {α : Type} {name : String} {shown : Json → Option α}

theorem taken_some {members : List (String × Json)} {a : α} {found : Option α} :
    taken name shown (some a) members = some found ↔
      found = some a ∧ ∀ m ∈ members, m.1 ≠ name := by
  induction members with
  | nil => simp [taken, eq_comm]
  | cons m later ih =>
    obtain ⟨n, v⟩ := m
    by_cases same : n = name
    · simp [taken, same]
    · simp [taken, same, ih]

/-- A field is taken over from members that have it once, or not at all. -/
theorem taken_none {members : List (String × Json)} {found : Option α} :
    taken name shown none members = some found ↔
      (found = none ∧ ∀ m ∈ members, m.1 ≠ name) ∨
        ∃ v a, only? name members = some v ∧ shown v = some a ∧ found = some a := by
  induction members with
  | nil => simp [taken, eq_comm, only?]
  | cons m later ih =>
    obtain ⟨n, v⟩ := m
    by_cases same : n = name
    · subst same
      simp only [taken, ↓reduceIte, Option.bind_eq_some_iff, taken_some,
        ThroughputRecord.only?_cons_self]
      constructor
      · rintro ⟨a, shows, rfl, others⟩
        exact .inr ⟨v, a, ⟨rfl, others⟩, shows, rfl⟩
      · rintro (⟨-, none⟩ | ⟨_, a, ⟨rfl, others⟩, shows, rfl⟩)
        · exact absurd rfl (none _ List.mem_cons_self)
        · exact ⟨a, shows, rfl, others⟩
    · simp [taken, same, ih, ThroughputRecord.only?_cons_other same]

end Json.Reader

namespace ThroughputDocument

/-- The description of the host that a tree gives; null counts as left out. -/
def descriptionOf (v : Json) : Option Json := if v.isNull then none else some v.normal

def resultsField : Reader.Field ResultPayload :=
  { name := "benchmarkResults", value := ResultPayload.reader }

def descriptionField : Reader.Field (Option Json) :=
  { name := "cpuInfo"
    value := fun room => nullable (return (← value room).normal)
    absent := some none }

theorem resultsField_readsOff : resultsField.ReadsOff ResultPayload.ofJson? := by
  intro room s payload t
  simp only [resultsField, ResultPayload.reader, bind_eq_ok]
  constructor
  · rintro ⟨v, u, tree, ok⟩
    cases shown : ResultPayload.ofJson? v with
    | none =>
      rw [shown] at ok
      cases ok
    | some found =>
      rw [shown] at ok
      obtain ⟨rfl, rfl⟩ := pure_eq_ok.mp ok
      exact ⟨v, tree, shown⟩
  · rintro ⟨v, tree, shown⟩
    refine ⟨v, t, tree, ?_⟩
    rw [shown]
    rfl

/-- Only a value that begins with the letter of null is null. -/
theorem isNull_of_value {room : Nat} {s t : Bytes} {v : Json} (read : value room s = .ok (v, t)) :
    v.isNull ↔ (dropSpace s).head? = some 0x6E := by
  obtain ⟨list, object, run, lists, objects⟩ := run_of_value read
  generalize dropSpace s = front at run
  cases run with
  | null read => simp [isNull]
  | yes read => simp [isNull]
  | no read => simp [isNull]
  | minus read => simp [isNull]
  | digit digit read => simp [isNull, (ne_of_isDigit digit).1]
  | string read => simp [isNull]
  | list read =>
    obtain ⟨_, vs, -, rfl, -⟩ := lists _ _ _ read
    simp [isNull]
  | object read =>
    obtain ⟨_, ms, -, rfl, -⟩ := objects _ _ _ read
    simp [isNull]

theorem nullable_other {α : Type} {reader : Reader α} {s : Bytes}
    (other : (dropSpace s).head? ≠ some 0x6E) :
    nullable reader s = (do return some (← reader) : Reader (Option α)) (dropSpace s) := by
  unfold nullable
  split
  next rest shape =>
    rw [shape] at other
    exact absurd rfl other
  next => rfl

theorem nullable_null {α : Type} {reader : Reader α} {s rest : Bytes}
    (shape : dropSpace s = 0x6E :: rest) :
    nullable reader s = (do restOfNull; return none : Reader (Option α)) rest := by
  simp only [nullable, shape]

theorem value_null {room : Nat} {s t rest : Bytes} {v : Json} (shape : dropSpace s = 0x6E :: rest) :
    value room s = .ok (v, t) ↔ restOfNull rest = .ok ((), t) ∧ v = .null := by
  have front {list object : Reader Json} : valueWith list object s = .ok (v, t) ↔
      restOfNull rest = .ok ((), t) ∧ v = .null := by
    rw [valueWith_eq_ok, shape]
    constructor
    · intro run
      cases run with
      | null read => exact ⟨read, rfl⟩
      | digit digit _ => exact absurd digit (by decide)
    · rintro ⟨read, rfl⟩
      exact .null read
  cases room <;> exact front

theorem descriptionField_readsOff : descriptionField.ReadsOff fun v => some (descriptionOf v) := by
  intro room s description t
  unfold descriptionField
  dsimp only
  simp only [Option.some.injEq]
  -- the first letter tells whether there is a description, and it is the letter of null alone
  by_cases letter : (dropSpace s).head? = some 0x6E
  · obtain ⟨rest, shape⟩ := List.head?_eq_some_iff.mp letter
    rw [nullable_null shape, map_eq_ok]
    simp only [value_null shape]
    constructor
    · rintro ⟨_, read, rfl⟩
      exact ⟨.null, ⟨read, rfl⟩, rfl⟩
    · rintro ⟨_, ⟨read, rfl⟩, rfl⟩
      exact ⟨(), read, rfl⟩
  · rw [nullable_other letter, map_eq_ok]
    have kept {v : Json} (read : value room s = .ok (v, t)) : descriptionOf v = some v.normal :=
      if_neg fun null => letter ((isNull_of_value read).mp null)
    constructor
    · rintro ⟨_, ok, rfl⟩
      obtain ⟨v, read, rfl⟩ := map_eq_ok.mp ok
      rw [value_dropSpace] at read
      exact ⟨v, read, kept read⟩
    · rintro ⟨v, read, rfl⟩
      refine ⟨v.normal, map_eq_ok.mpr ⟨v, ?_, rfl⟩, kept read⟩
      rwa [value_dropSpace]

theorem results_taken {members : List (String × Json)} {results : ResultPayload} :
    (∃ found, taken resultsField.name ResultPayload.ofJson? none members = some found ∧
        resultsField.closed found = some results) ↔
      ∃ v, ThroughputRecord.only? "benchmarkResults" members = some v ∧
        ResultPayload.ofJson? v = some results := by
  simp only [taken_none]
  constructor
  · rintro ⟨found, ⟨rfl, -⟩ | ⟨v, a, single, shown, rfl⟩, closed⟩
    · cases closed
    · cases closed
      exact ⟨v, single, shown⟩
  · rintro ⟨v, single, shown⟩
    exact ⟨some results, .inr ⟨v, results, single, shown, rfl⟩, rfl⟩

/-- What the members of an object say about the host. -/
def Describes (members : List (String × Json)) (description : Option Json) : Prop :=
  (description = none ∧ ∀ m ∈ members, m.1 ≠ "cpuInfo") ∨
    ∃ w, ThroughputRecord.only? "cpuInfo" members = some w ∧ description = descriptionOf w

theorem description_taken {members : List (String × Json)} {description : Option Json} :
    (∃ found, taken descriptionField.name (fun v => some (descriptionOf v)) none members =
        some found ∧ descriptionField.closed found = some description) ↔
      Describes members description := by
  simp only [taken_none]
  constructor
  · rintro ⟨found, ⟨rfl, others⟩ | ⟨v, a, single, shown, rfl⟩, closed⟩
    · cases closed
      exact .inl ⟨rfl, others⟩
    · cases shown
      cases closed
      exact .inr ⟨v, single, rfl⟩
  · rintro (⟨rfl, others⟩ | ⟨w, single, rfl⟩)
    · exact ⟨none, .inl ⟨rfl, others⟩, rfl⟩
    · exact ⟨some (descriptionOf w), .inr ⟨w, _, single, rfl, rfl⟩, rfl⟩

/-- How a tree shows a document: as an object with one member of results and at most one description
of the host, as a list of the results alone, or as a list of the results and the description. -/
inductive ShownBy : Json → ThroughputDocument → Prop where
  | object {members : List (String × Json)} {v : Json} {results : ResultPayload}
      {description : Option Json}
      (single : ThroughputRecord.only? "benchmarkResults" members = some v)
      (shown : ResultPayload.ofJson? v = some results) (described : Describes members description) :
      ShownBy (.object members) ⟨results, description⟩
  | bare {v : Json} {results : ResultPayload} (shown : ResultPayload.ofJson? v = some results) :
      ShownBy (.array [v]) ⟨results, none⟩
  | described {v w : Json} {results : ResultPayload}
      (shown : ResultPayload.ofJson? v = some results) :
      ShownBy (.array [v, w]) ⟨results, descriptionOf w⟩

def fieldNames : List String := ["benchmarkResults", "cpuInfo"]

theorem shownBy_iff {top : Json} {d : ThroughputDocument} :
    ShownBy top d ↔ PairShown resultsField descriptionField ResultPayload.ofJson?
      (fun v => some (descriptionOf v)) top (d.results, d.cpuInfo) := by
  obtain ⟨results, description⟩ := d
  constructor
  · intro shows
    cases shows with
    | object single shown described =>
      obtain ⟨x, tookA, closedA⟩ := results_taken.mpr ⟨_, single, shown⟩
      obtain ⟨y, tookB, closedB⟩ := description_taken.mpr described
      exact .object tookA tookB closedA closedB
    | bare shown => exact .one shown rfl
    | described shown => exact .two shown rfl
  · intro shows
    generalize pair : (results, description) = r at shows
    cases shows with
    | object tookA tookB closedA closedB =>
      cases pair
      obtain ⟨v, single, shown⟩ := results_taken.mp ⟨_, tookA, closedA⟩
      exact .object single shown (description_taken.mp ⟨_, tookB, closedB⟩)
    | two shown described =>
      cases pair
      cases described
      exact .described shown
    | one shown absent =>
      cases pair
      cases absent
      exact .bare shown
    | empty absent _ => cases absent

theorem reader_eq_ok {room : Nat} {s t : Bytes} {d : ThroughputDocument} :
    reader room s = .ok (d, t) ↔
      ∃ top, outline fieldNames room s = .ok (top, t) ∧ ShownBy top d := by
  have apart : resultsField.name ≠ descriptionField.name := by decide
  have unfolded : reader room s = .ok (d, t) ↔
      ∃ r, record2 "ThroughputDocument" resultsField descriptionField room s = .ok (r, t) ∧
        d = ⟨r.1, r.2⟩ := map_eq_ok
  rw [unfolded]
  simp only [record2_eq_ok resultsField_readsOff descriptionField_readsOff apart, shownBy_iff]
  constructor
  · rintro ⟨r, ⟨top, read, shows⟩, rfl⟩
    exact ⟨top, read, shows⟩
  · rintro ⟨top, read, shows⟩
    exact ⟨_, ⟨top, read, shows⟩, rfl⟩

/-- A text is a document just if its outline shows one. -/
theorem parse_eq_ok {bytes : Bytes} {d : ThroughputDocument} :
    parse bytes = .ok d ↔
      ∃ top, run (outline fieldNames documentRoom) bytes = .ok top ∧ ShownBy top d := by
  unfold parse
  simp only [run_eq_ok, reader_eq_ok]
  constructor
  · rintro ⟨rest, ⟨top, read, shown⟩, blank⟩
    exact ⟨top, ⟨rest, read, blank⟩, shown⟩
  · rintro ⟨top, ⟨rest, read, blank⟩, shown⟩
    exact ⟨rest, ⟨top, read, shown⟩, blank⟩

theorem only?_blanked (known : List String) {name : String} (isKnown : name ∈ known)
    (members : List (String × Json)) :
    ThroughputRecord.only? name (blanked known members) = ThroughputRecord.only? name members := by
  have kept : (blanked known members).filter (fun m => m.1 == name) =
      members.filter fun m => m.1 == name := by
    induction members with
    | nil => rfl
    | cons m later ih =>
      have first : blanked known (m :: later) =
        (if m.1 ∈ known then m else (m.1, .null)) :: blanked known later := rfl
      by_cases same : m.1 = name
      · have member : m.1 ∈ known := same ▸ isKnown
        rw [first, if_pos member, List.filter_cons, List.filter_cons, ih]
      · rw [first, List.filter_cons, List.filter_cons, ih]
        split <;> simp [same]
  unfold ThroughputRecord.only?
  rw [kept]

theorem shownBy_outlined {v : Json} {d : ThroughputDocument} :
    ShownBy (outlined fieldNames v) d ↔ ShownBy v d := by
  cases v with
  | object members =>
    have names (name : String) : (∀ m ∈ blanked fieldNames members, m.1 ≠ name) ↔
        ∀ m ∈ members, m.1 ≠ name := by
      have kept (m : String × Json) : (if m.1 ∈ fieldNames then m else (m.1, .null)).1 = m.1 := by
        split <;> rfl
      simp only [blanked, List.forall_mem_map, kept]
    have describes (description : Option Json) :
        Describes (blanked fieldNames members) description ↔ Describes members description := by
      unfold Describes
      rw [names, only?_blanked fieldNames (by decide)]
    constructor
    · rintro (⟨single, shown, described⟩ | _ | _)
      rw [only?_blanked fieldNames (by decide)] at single
      exact .object single shown ((describes _).mp described)
    · rintro (⟨single, shown, described⟩ | _ | _)
      rw [← only?_blanked fieldNames (by decide)] at single
      exact .object single shown ((describes _).mpr described)
  | _ => rfl

/-- A text that is a tree is a document just if the tree shows one. -/
theorem parse_of_tree {bytes : Bytes} {v : Json} (tree : Json.parse bytes = .ok v)
    {d : ThroughputDocument} : parse bytes = .ok d ↔ ShownBy v d := by
  obtain ⟨rest, read, blank⟩ := run_eq_ok.mp tree
  have outline : run (outline fieldNames documentRoom) bytes = .ok (outlined fieldNames v) :=
    run_eq_ok.mpr ⟨rest, outline_of_value read, blank⟩
  rw [parse_eq_ok, ← shownBy_outlined]
  constructor
  · rintro ⟨top, found, shown⟩
    rw [outline, Except.ok.injEq] at found
    rwa [found]
  · intro shown
    exact ⟨_, outline, shown⟩

end ThroughputDocument

namespace Throughput

theorem readDocument_eq_ok {limit : Nat} {path : String} {content : ByteArray}
    {d : ThroughputDocument} : readDocument limit path (.ok content) = .ok d ↔
      content.size ≤ limit ∧ ThroughputDocument.parse content.data.toList = .ok d := by
  by_cases within : content.size ≤ limit
  · have read : readLimited limit path (.ok content) = .ok content.data.toList := if_pos within
    simp only [readDocument, read, bind, Except.bind, within, true_and]
    cases ThroughputDocument.parse content.data.toList <;> simp
  · have refused : readLimited limit path (.ok content) =
        .error (.tooLarge path (limit + 1) limit) := if_neg within
    simp [readDocument, refused, bind, Except.bind, within]

theorem readDocument_of_problem {limit : Nat} {path : String} {content : ByteArray}
    (within : content.size ≤ limit) {problem : Problem}
    (failed : ThroughputDocument.parse content.data.toList = .error problem) :
    readDocument limit path (.ok content) = .error (.malformed path problem) := by
  have read : readLimited limit path (.ok content) = .ok content.data.toList := if_pos within
  simp only [readDocument, read, failed, bind, Except.bind]

/-- A file within the limit is taken as a document just if the outline of its text shows one: an
object with one member of results, or else a list that begins with the results and may go on with a
description of the host. Every other file within the limit is malformed. -/
theorem document_forms (limit : Nat) (path : String) (content : ByteArray) :
    (∀ d, readDocument limit path (.ok content) = .ok d ↔ content.size ≤ limit ∧
      ∃ top,
        run (outline ThroughputDocument.fieldNames documentRoom) content.data.toList = .ok top ∧
          ThroughputDocument.ShownBy top d) ∧
      (∀ v, Json.parse content.data.toList = .ok v → ∀ d,
        readDocument limit path (.ok content) = .ok d ↔
          content.size ≤ limit ∧ ThroughputDocument.ShownBy v d) ∧
      (limit < content.size ∨ (∃ d, readDocument limit path (.ok content) = .ok d) ∨
        ∃ problem, readDocument limit path (.ok content) = .error (.malformed path problem)) := by
  refine ⟨fun d => ?_, fun v tree d => ?_, ?_⟩
  · rw [readDocument_eq_ok, ThroughputDocument.parse_eq_ok]
  · rw [readDocument_eq_ok, ThroughputDocument.parse_of_tree tree]
  · by_cases within : content.size ≤ limit
    · cases found : ThroughputDocument.parse content.data.toList with
      | ok d => exact .inr (.inl ⟨d, readDocument_eq_ok.mpr ⟨within, found⟩⟩)
      | error problem => exact .inr (.inr ⟨problem, readDocument_of_problem within found⟩)
    · exact .inl (Nat.lt_of_not_le within)

def bareBatch : ByteArray :=
  ("[\x7b\"queueSize\":1,\"producerCount\":1,\"successfulPops\":1\x7d," ++
    "\x7b\"queueSize\":2,\"producerCount\":2,\"successfulPops\":2\x7d]").toUTF8

/-- The first record of a bare batch is taken for the results and the second for the host. -/
theorem bareBatch_loses_a_record :
    (Json.parse bareBatch.data.toList).toOption.map Json.found = some .sequence ∧
      (readDocument 1000 "r.json" (.ok bareBatch)).toOption.map
          (fun d => (d.records.map (·.key), d.environment.map compact)) =
        some ([⟨1, 1⟩],
          some "\x7b\"producerCount\":2,\"queueSize\":2,\"successfulPops\":2\x7d") := by
  constructor
  · decide +kernel
  · decide +kernel

end Throughput

end QueueBench
