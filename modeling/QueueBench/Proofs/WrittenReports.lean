import QueueBench.Counter.Record
import QueueBench.Proofs.KeptRecords
import QueueBench.Proofs.WrittenRecords
import QueueBench.Source.Report

set_option autoImplicit false

namespace QueueBench

open Json.Reader (openStep onceStep readsAs_string readsAs_word64 readsAs_size readsAs_table
  readsAs_variant readsAs_openRecord takesAt_field takesAll_kept documentRoom)

namespace Json

/-- Whether no object within a value has two members of one name. -/
inductive Unrepeated : Json → Prop where
  | null : Unrepeated .null
  | boolean (b : Bool) : Unrepeated (.boolean b)
  | number (n : Number) : Unrepeated (.number n)
  | string (s : String) : Unrepeated (.string s)
  | array {items : List Json} (inner : ∀ v ∈ items, Unrepeated v) : Unrepeated (.array items)
  | object {members : List (String × Json)} (once : (members.map (·.1)).Nodup)
      (inner : ∀ m ∈ members, Unrepeated m.2) : Unrepeated (.object members)

/-- A value that its written form gives back, without repeated names. -/
structure Plain (room : Nat) (v : Json) : Prop where
  writes : WritesBack room v
  unrepeated : v.Unrepeated

theorem plain_natural (room : Nat) (n : UInt64) : Plain room (.natural n) :=
  ⟨writesBack_number (Reader.numberRun_natural n), .number _⟩

theorem plain_string (room : Nat) (s : String) : Plain room (.string s) :=
  ⟨writesBack_string s, .string s⟩

theorem plain_object {room : Nat} {ms : List (String × Json)} (once : (ms.map (·.1)).Nodup)
    (inner : ∀ m ∈ ms, Plain room m.2) : Plain (room + 1) (.object ms) :=
  ⟨writesBack_object fun m member => (inner m member).writes,
    .object once fun m member => (inner m member).unrepeated⟩

/-- What a value is written as is read as the value again, and shows no name twice in an object. -/
structure RoundTrips {α : Type} (reader : Nat → Reader α) (form : Json) (a : α) : Prop where
  reads : Reader.run (reader documentRoom) form.compact.toUTF8.data.toList = .ok a
  parses : Json.parse form.compact.toUTF8.data.toList = .ok form
  unrepeated : form.Unrepeated

theorem roundTrips_of_plain {α : Type} {reader : Nat → Reader α} {form : Json} {a : α}
    (reads : ReadsAs (reader documentRoom) form a) (plain : Plain documentRoom form) :
    RoundTrips reader form a :=
  ⟨run_of_readsAs reads, run_of_readsAs plain.writes.reads, plain.unrepeated⟩

end Json

open Json (Plain plain_natural plain_string plain_object TakesAll ReadsAs RoundTrips)

namespace Key

theorem plain_members (room : Nat) (k : Key) : ∀ m ∈ k.members, Plain room m.2 := by
  unfold members
  simp only [List.forall_mem_cons, List.not_mem_nil, false_implies, implies_true, and_true]
  exact ⟨plain_natural room _, plain_natural room _⟩

theorem plain_toJson (room : Nat) (k : Key) : Plain (room + 1) k.toJson :=
  plain_object (show ["queueSize", "producerCount"].Nodup by decide) (plain_members room k)

end Key

theorem Family.readsAs (room : Nat) (family : Family) :
    ReadsAs (Family.reader room) family.toJson family := by
  have known : Family.cases.find? (fun c => c.1 == family.label) = some (family.label, family) := by
    cases family <;> rfl
  exact readsAs_variant room known

namespace SourceStatus

/-- A status is found among its own members. -/
theorem ofMembers_members (status : SourceStatus) : ofMembers status.members = .ok status := by
  have shown (key : Key) : Key.ofJson key.toJson = .ok key := Key.ofMembers_members key
  cases status with
  | resolved key =>
    have gathered : gather true false (resolved key).members none none = .ok (some key, none) := by
      show gather true false [("key", key.toJson)] none none = _
      rw [gather, if_pos (by decide), shown]
      rfl
    unfold ofMembers
    show (gather true false (resolved key).members none none >>= _) = _
    rw [gathered]
    rfl
  | defaultedKey key reason =>
    have gathered : gather true true (defaultedKey key reason).members none none =
        .ok (some key, some reason) := by
      show gather true true [("key", key.toJson), ("reason", .string reason)] none none = _
      rw [gather, if_pos (by decide), shown]
      rfl
    unfold ofMembers
    show (gather true true (defaultedKey key reason).members none none >>= _) = _
    rw [gathered]
    rfl
  | skipped reason => rfl

theorem plain_members (room : Nat) (status : SourceStatus) :
    ∀ m ∈ status.members, Plain (room + 1) m.2 := by
  cases status <;> simp [members, plain_string, Key.plain_toJson]

end SourceStatus

namespace SourceReport

def members (r : SourceReport) : List (String × Json) :=
  [("path", Json.string r.path), ("family", r.family.toJson)] ++ r.status.members ++
    [("records", Json.count r.records)]

theorem plain_members (room : Nat) (r : SourceReport) : ∀ m ∈ r.members, Plain (room + 1) m.2 := by
  intro m member
  unfold members at member
  rw [List.mem_append, List.mem_append] at member
  rcases member with (leading | status) | count
  · simp only [List.mem_cons, List.not_mem_nil, or_false] at leading
    rcases leading with rfl | rfl <;> exact plain_string _ _
  · exact r.status.plain_members room m status
  · cases List.mem_singleton.mp count
    exact plain_natural _ _

theorem names_once (r : SourceReport) : (r.members.map (·.1)).Nodup := by
  obtain ⟨path, family, status, records⟩ := r
  cases status with
  | resolved _ => exact show ["path", "family", "status", "key", "records"].Nodup by decide
  | defaultedKey _ _ =>
    exact show ["path", "family", "status", "key", "reason", "records"].Nodup by decide
  | skipped _ => exact show ["path", "family", "status", "reason", "records"].Nodup by decide

/-- The members of a status are none of the report's own. -/
theorem step_status (room : Nat) (status : SourceStatus) (d : Draft) :
    ∀ m ∈ status.members, Draft.step room m.1 d = none := by
  have others : ∀ name ∈ ["status", "key", "reason"], Draft.step room name d = none := by
    simp [Draft.step]
  intro m member
  apply others
  cases status <;> (simp only [SourceStatus.members] at member; grind)

theorem takes_members (room : Nat) {r : SourceReport} (small : r.records < Json.wordBound) :
    TakesAll (openStep Draft.step (room + 1)) ({}, []) r.members
      (.ok (⟨some r.path, some r.family, some r.records⟩, r.status.members.reverse)) := by
  apply TakesAll.next (takesAt_field rfl (readsAs_string "path string" r.path) [])
  apply TakesAll.next (takesAt_field rfl (r.family.readsAs _) [])
  apply takesAll_kept
  · intro m member
    exact ⟨step_status _ _ _ m member, (r.status.plain_members room m member).writes⟩
  · rw [List.append_nil]
    exact TakesAll.next (takesAt_field rfl (readsAs_size small) _) .nil

theorem readsAs (room : Nat) {r : SourceReport} (small : r.records < Json.wordBound) :
    ReadsAs (reader (room + 2)) r.toJson r := by
  apply readsAs_openRecord (takes_members room small)
  rw [List.reverse_reverse]
  show (do
    let status ← SourceStatus.ofMembers r.status.members
    return (⟨r.path, r.family, status, r.records⟩ : SourceReport)) = _
  rw [SourceStatus.ofMembers_members]
  rfl

end SourceReport

namespace CounterRecord

def members (r : CounterRecord) : List (String × Json) :=
  r.key.members ++ [("metrics", Json.ofTable Json.natural r.metrics)]

theorem plain_metrics (room : Nat) (metrics : Table String UInt64) :
    Plain (room + 1) (Json.ofTable Json.natural metrics) := by
  apply plain_object
  · rw [List.map_map]
    exact metrics.keys_nodup
  · intro m member
    obtain ⟨e, _, rfl⟩ := List.mem_map.mp member
    exact plain_natural room e.2

theorem plain_members (room : Nat) (r : CounterRecord) : ∀ m ∈ r.members, Plain (room + 1) m.2 := by
  intro m member
  rcases List.mem_append.mp member with key | metrics
  · exact r.key.plain_members _ m key
  · cases List.mem_singleton.mp metrics
    exact plain_metrics room r.metrics

theorem names_once (r : CounterRecord) : (r.members.map (·.1)).Nodup :=
  show ["queueSize", "producerCount", "metrics"].Nodup by decide

theorem readsAs_metrics (room : Nat) (metrics : Table String UInt64) :
    ReadsAs (Json.Reader.table (fun _ => Json.Reader.word64) (room + 1))
      (Json.ofTable Json.natural metrics) metrics.entries := by
  apply readsAs_table
  intro e _
  exact readsAs_word64 e.2

/-- The members of a key are not the metrics. -/
theorem step_key (room : Nat) (k : Key) (before : Option (Table String UInt64)) :
    ∀ m ∈ k.members, step room m.1 before = none := by
  simp [Key.members, step]

theorem takes_members (room : Nat) (r : CounterRecord) :
    TakesAll (openStep step (room + 1)) (none, []) r.members
      (.ok (some r.metrics, r.key.members.reverse)) := by
  apply takesAll_kept
  · intro m member
    exact ⟨step_key _ _ _ m member, (r.key.plain_members _ m member).writes⟩
  · rw [List.append_nil]
    have known : step (room + 1) "metrics" none = some (onceStep false "metrics"
        (Json.Reader.table (fun _ => Json.Reader.word64) (room + 1)) fun entries =>
          some (Table.ofList entries)) := rfl
    have taken := takesAt_field known (readsAs_metrics room r.metrics) r.key.members.reverse
    rw [Table.ofList_entries] at taken
    exact TakesAll.next taken .nil

theorem readsAs (room : Nat) (r : CounterRecord) : ReadsAs (reader (room + 2)) r.toJson r := by
  apply readsAs_openRecord (takes_members room r)
  rw [List.reverse_reverse]
  show (do return (⟨← Key.ofMembers r.key.members, r.metrics⟩ : CounterRecord)) = _
  rw [Key.ofMembers_members]
  rfl

end CounterRecord

/-- Reports of sources, with any path, status and count that fits into a word, and counter records,
whatever their metrics are called, are read back from what they are written as, where no name is
repeated in an object. -/
theorem reports_and_counters_round_trip :
    (∀ r : SourceReport, r.records < Json.wordBound → RoundTrips SourceReport.reader r.toJson r) ∧
      ∀ r : CounterRecord, RoundTrips CounterRecord.reader r.toJson r := by
  constructor
  · intro r small
    apply Json.roundTrips_of_plain (r.readsAs 125 small)
    exact plain_object r.names_once (r.plain_members 125)
  · intro r
    apply Json.roundTrips_of_plain (r.readsAs 125)
    exact plain_object r.names_once (r.plain_members 125)

/-- A report with the largest numbers and with letters that have to be escaped. -/
def escapedReport : SourceReport :=
  ⟨"runs/\"a\".txt", .counter, .defaultedKey ⟨18446744073709551615, 4294967295⟩ "line\nbreak",
    18446744073709551615⟩

/-- A record with metrics that have the names of its own fields. -/
def clashingRecord : CounterRecord :=
  ⟨⟨8, 1⟩, Table.ofList [("queueSize", 1), ("producerCount", 2), ("metrics", 18446744073709551615)]⟩

theorem reports_and_counters_round_trip_clashing :
    escapedReport.records < Json.wordBound ∧
      RoundTrips SourceReport.reader escapedReport.toJson escapedReport ∧
      RoundTrips CounterRecord.reader clashingRecord.toJson clashingRecord ∧
      clashingRecord.toJson.compact =
        "\x7b\"queueSize\":8,\"producerCount\":1,\"metrics\":\x7b" ++
          "\"metrics\":18446744073709551615,\"producerCount\":2,\"queueSize\":1\x7d\x7d" := by
  have small : escapedReport.records < Json.wordBound := by decide
  have report := reports_and_counters_round_trip.1 escapedReport small
  have record := reports_and_counters_round_trip.2 clashingRecord
  exact ⟨small, report, record, by decide +kernel⟩

end QueueBench
