import QueueBench.Proofs.IndentedValues
import QueueBench.Proofs.SingleDocuments
import QueueBench.Proofs.ThroughputRange
import QueueBench.Proofs.ThroughputValues

set_option autoImplicit false

namespace QueueBench

open Double (Moderate)
open Json (Reader WrittenAsNumber ReadsBack reread reread_of_readsBack isFinite_reread
  writtenAsNumber_iff)
open Json.Reader
open Text.Utf8 (encode encode_append)

theorem Key.readsIf (key : Key) (room : Nat) (p : Json.Problem) :
    ReadsIf True p (Key.reader (room + 1)) key.toJson key :=
  .of_iff (.bind (readsIf_record2 (by decide) (readsIf_word64 key.queueSize)
    (readsIf_word32 key.producerCount)) fun _ => rfl) (iff_of_eq (true_and _))

namespace Series

def producerPoints (points : List ProducerPoint) : Json :=
  .array (points.map fun point => .object [("producerCount", .natural point.producerCount.toUInt64),
    ("throughputMops", .double point.mops)])

def queuePoints (points : List QueuePoint) : Json :=
  .array (points.map fun point => .object [("queueSize", .natural point.queueSize),
    ("throughputMops", .double point.mops)])

theorem readsIf_producerPoint {point : ProducerPoint} (moderate : Moderate point.mops)
    (room : Nat) : ReadsIf (WrittenAsNumber point.mops) nullForDouble (producerPoint (room + 1))
      (.object [("producerCount", .natural point.producerCount.toUInt64),
        ("throughputMops", .double point.mops)]) ⟨point.producerCount, reread point.mops⟩ :=
  .of_iff (.bind (readsIf_record2 (by decide) (readsIf_word32 point.producerCount)
    (readsIf_double moderate)) fun _ => rfl) (iff_of_eq (true_and _))

theorem readsIf_queuePoint {point : QueuePoint} (moderate : Moderate point.mops) (room : Nat) :
    ReadsIf (WrittenAsNumber point.mops) nullForDouble (queuePoint (room + 1))
      (.object [("queueSize", .natural point.queueSize), ("throughputMops", .double point.mops)])
      ⟨point.queueSize, reread point.mops⟩ :=
  .of_iff (.bind (readsIf_record2 (by decide) (readsIf_word64 point.queueSize)
    (readsIf_double moderate)) fun _ => rfl) (iff_of_eq (true_and _))

theorem readsIf_producerPoints {points : List ProducerPoint}
    (moderate : ∀ point ∈ points, Moderate point.mops) (room : Nat) :
    ReadsIf (∀ point ∈ points, WrittenAsNumber point.mops) nullForDouble
      (list producerPoint (room + 2)) (producerPoints points) (mapProducerPoints reread points) :=
  readsIf_list fun point member => readsIf_producerPoint (moderate point member) room

theorem readsIf_queuePoints {points : List QueuePoint}
    (moderate : ∀ point ∈ points, Moderate point.mops) (room : Nat) :
    ReadsIf (∀ point ∈ points, WrittenAsNumber point.mops) nullForDouble
      (list queuePoint (room + 2)) (queuePoints points) (mapQueuePoints reread points) :=
  readsIf_list fun point member => readsIf_queuePoint (moderate point member) room

/-- A grouping is read back by way of the numbers in the names of its groups. -/
theorem ofList_numbered {κ α β : Type} [Ord κ] [DecidableEq κ] [Std.LawfulEqOrd κ]
    [Std.TransOrd κ] (t : Table κ α) (f : α → β) (number : κ → Nat) (ofNat : Nat → κ)
    (back : ∀ k, ofNat (number k) = k) :
    Table.ofList ((t.entries.map fun e => (number e.1, f e.2)).map fun e => (ofNat e.1, e.2)) =
      t.mapValues f := by
  have same : (t.entries.map fun e => (number e.1, f e.2)).map (fun e => (ofNat e.1, e.2)) =
      (t.mapValues f).entries := by
    rw [List.map_map]
    simp only [Function.comp_def, back]
    rfl
  rw [same, Table.ofList_entries]

variable {s : Series} (moderate : s.Every Moderate)
include moderate

theorem readsIf_sizeGroups (room : Nat) :
    ReadsIf (∀ e ∈ s.byQueueSize.entries, ∀ point ∈ e.2, WrittenAsNumber point.mops) nullForDouble
      (numberTable Json.wordBound "u64" (list producerPoint) (room + 3))
      (.object (s.byQueueSize.entries.map fun e => (groupName e.1.toNat, producerPoints e.2)))
      (s.byQueueSize.entries.map fun e => (e.1.toNat, mapProducerPoints reread e.2)) := by
  apply readsIf_numberTable (P := fun points => ∀ point ∈ points, WrittenAsNumber point.mops)
    UInt64.toNat producerPoints (mapProducerPoints reread)
  · exact Nat.le_refl _
  · exact fun e inside =>
      ⟨e.1.toNat_lt, readsIf_producerPoints (moderate.byQueueSize e inside) room⟩

theorem readsIf_countGroups (room : Nat) :
    ReadsIf (∀ e ∈ s.byProducerCount.entries, ∀ point ∈ e.2, WrittenAsNumber point.mops)
      nullForDouble (numberTable Json.halfWordBound "u32" (list queuePoint) (room + 3))
      (.object (s.byProducerCount.entries.map fun e => (groupName e.1.toNat, queuePoints e.2)))
      (s.byProducerCount.entries.map fun e => (e.1.toNat, mapQueuePoints reread e.2)) := by
  apply readsIf_numberTable (P := fun points => ∀ point ∈ points, WrittenAsNumber point.mops)
    UInt32.toNat queuePoints (mapQueuePoints reread)
  · decide
  · exact fun e inside =>
      ⟨e.1.toNat_lt, readsIf_queuePoints (moderate.byProducerCount e inside) room⟩

theorem readsIf (room : Nat) : ReadsIf (s.Every WrittenAsNumber) nullForDouble
    (Series.reader (room + 4)) s.toJson (s.mapMops reread) := by
  have sizes := readsIf_sizeGroups moderate room
  have counts := readsIf_countGroups moderate room
  refine .of_iff (.bind (readsIf_record2 (by decide) sizes counts) fun rest => ?_)
    ⟨fun both => ⟨both.1, both.2⟩, fun every => ⟨every.1, every.2⟩⟩
  have same := congrArg₂ Series.mk
    (ofList_numbered s.byQueueSize (mapProducerPoints reread) UInt64.toNat UInt64.ofNat
      fun q => UInt64.ofNat_toNat)
    (ofList_numbered s.byProducerCount (mapQueuePoints reread) UInt32.toNat UInt32.ofNat
      fun n => UInt32.ofNat_toNat)
  exact congrArg (fun s : Series => Except.ok (s, rest)) same

end Series

theorem Matrix.readsIf {m : Matrix} (moderate : m.Every Moderate) (room : Nat) :
    ReadsIf (m.Every WrittenAsNumber) nullForDouble (Matrix.reader (room + 3)) m.toJson
      (m.mapMops reread) := by
  have sizes := @readsIf_list _ _ _ nullForDouble Json.natural id m.queueSizes (fun _ => word64)
    (room + 1) fun q _ => readsIf_word64 q
  have counts := @readsIf_list _ _ _ nullForDouble (fun n : UInt32 => Json.natural n.toUInt64) id
    m.producerCounts (fun _ => word32) (room + 1) fun n _ => readsIf_word32 n
  rw [List.map_id] at sizes counts
  have cells := @readsIf_list _ _ _ nullForDouble (fun row => .array (row.map Json.double))
    (fun row => row.map reread) m.cells (list fun _ => double) (room + 1) fun row inside =>
      readsIf_list fun x member => readsIf_double (moderate row inside x member)
  refine .of_iff (.bind (readsIf_record3 (by decide) (by decide) (by decide) sizes counts cells)
    fun _ => rfl) ?_
  unfold Every
  simp only [implies_true, true_and]

namespace Aggregation

/-- Every throughput of an aggregation is written as a number. -/
def Numbered (a : Aggregation) : Prop := a.Every WrittenAsNumber

variable {a : Aggregation} (moderate : a.Every Moderate)
include moderate

/-- An aggregation is read back from its written form if every throughput is a number, and else a null
is refused. -/
theorem readsIf (room : Nat) : ReadsIf a.Numbered nullForDouble (Aggregation.reader (room + 5))
    a.toJson (a.mapMops reread) := by
  have duplicates := @readsIf_list _ _ _ nullForDouble Key.toJson id a.duplicates Key.reader
    (room + 3) fun key _ => key.readsIf (room + 2) nullForDouble
  rw [List.map_id] at duplicates
  refine .of_iff (.bind (readsIf_record3 (by decide) (by decide) (by decide)
    (Series.readsIf moderate.series room) (Matrix.readsIf moderate.matrix (room + 1)) duplicates)
    fun _ => rfl) ?_
  exact ⟨fun all => ⟨all.1, all.2.1⟩, fun every => ⟨every.1, every.2, fun _ _ => trivial⟩⟩

/-- What the throughputs are read as are numbers, too. -/
theorem numbered_reread (numbered : a.Numbered) : (a.mapMops reread).Numbered := by
  apply every_mapMops
  refine (moderate.and numbered).imp fun x both => ?_
  exact writtenAsNumber_iff.mpr (isFinite_reread both.1 (writtenAsNumber_iff.mp both.2))

omit moderate in
theorem mapMops_reread (exact : a.Every ReadsBack) : a.mapMops reread = a :=
  mapMops_eq_self (exact.imp fun _ => reread_of_readsBack)

end Aggregation

namespace Dataset

theorem ofDocument_eq_ok {settings : Settings} {path : String} {content : Except PathFault ByteArray}
    {dataset : Dataset} (succeeds : (ofDocument settings path content).value = .ok dataset) :
    ∃ loaded, (Throughput.loadDocument settings.maxFileBytes path content).value = .ok loaded ∧
      dataset.throughput = loaded.records ∧
      (aggregateLoaded settings path loaded).value = .ok dataset.aggregation := by
  unfold ofDocument at succeeds
  rw [Logged.value_bind] at succeeds
  cases read : (Throughput.loadDocument settings.maxFileBytes path content).value with
  | error failure =>
    rw [read] at succeeds
    cases succeeds
  | ok loaded =>
    rw [read] at succeeds
    dsimp only at succeeds
    rw [Logged.value_bind] at succeeds
    cases aggregated : (aggregateLoaded settings path loaded).value with
    | error failure =>
      rw [aggregated] at succeeds
      cases succeeds
    | ok aggregation =>
      rw [aggregated] at succeeds
      cases succeeds
      exact ⟨loaded, rfl, rfl, aggregated⟩

/-- However a dataset came about, its records are those of its aggregation. -/
theorem aggregate_of_ofPath {settings : Settings} {tree : FileTree} {path : String}
    {dataset : Dataset} (succeeds : (ofPath settings tree path).value = .ok dataset) :
    (aggregate settings.aggregation dataset.throughput).value = .ok dataset.aggregation := by
  unfold ofPath at succeeds
  split at succeeds
  case isTrue directory =>
    cases listed : listAt tree path with
    | error failure =>
      rw [listed] at succeeds
      cases succeeds
    | ok listing =>
      rw [listed] at succeeds
      obtain ⟨aggregation, aggregated, rfl⟩ := ofDirectory_eq_ok succeeds
      exact aggregateLoaded_eq_ok aggregated
  case isFalse document =>
    obtain ⟨loaded, -, records, aggregated⟩ := ofDocument_eq_ok succeeds
    rw [records]
    exact aggregateLoaded_eq_ok aggregated

theorem window_of_aggregate {rule : AggregationRule} {records : List ThroughputRecord}
    {a : Aggregation} (succeeds : (aggregate rule records).value = .ok a) :
    AggregationRule.isValidWindow rule.window = true := by
  by_contra invalid
  have checked : Aggregation.checkRule rule = .error (.invalidWindow rule.window) := if_neg invalid
  unfold aggregate at succeeds
  rw [checked] at succeeds
  cases succeeds

/-- What the rendered form of a dataset starts with, up to the value of its aggregation. -/
def beforeAggregation (d : Dataset) : List Char :=
  '\x7b' :: (Json.indentedMembers 1 [("environment", d.environment.getD .null),
    ("throughput", .array (d.throughput.map ThroughputRecord.toJson))] ++
      ',' :: (Json.newLine 1 ++ (Json.quoted "aggregation" ++ [':', ' '])))

theorem indented_eq (d : Dataset) : ∃ back,
    d.toJson.indented.toList =
      d.beforeAggregation ++ (d.aggregation.toJson.indentedChars 1 ++ back) ∧
    Ends (encode back) := by
  refine ⟨memberLines 1 [("zoneTraces", .array (d.zoneTraces.map ZoneTraceRecord.toJson)),
    ("counters", .array (d.counters.map CounterRecord.toJson)),
    ("sources", .array (d.sources.map SourceReport.toJson))] ++ (Json.newLine 0 ++ ['\x7d']), ?_, ?_⟩
  · unfold toJson Json.indented beforeAggregation
    rw [String.toList_ofList, Json.indentedChars]
    simp only [Json.indentedMembers, memberLines, List.append_assoc, List.cons_append,
      List.nil_append]
  · rw [encode_append]
    refine ends_memberLines 1 _ ?_
    rw [encode_append]
    exact ends_newLine 0 _

/-- In a rendered dataset the aggregation is read in its place, or a null is refused there. -/
theorem indented_reads (d : Dataset) (moderate : d.aggregation.Every Moderate) : ∃ back,
    d.toJson.indented.toList =
      d.beforeAggregation ++ (d.aggregation.toJson.indentedChars 1 ++ back) ∧
    ∀ room, Yields d.aggregation.Numbered nullForDouble
      (Aggregation.reader (room + 5) (encode (d.aggregation.toJson.indentedChars 1 ++ back)))
      (d.aggregation.mapMops reread, encode back) := by
  obtain ⟨back, rendered, ends⟩ := d.indented_eq
  refine ⟨back, rendered, fun room => ?_⟩
  rw [encode_append]
  exact (Aggregation.readsIf moderate room).reads_here 1 ends

section Kept

variable {settings : Settings} {tree : FileTree} {path : String} {dataset : Dataset}
  (succeeds : (ofPath settings tree path).value = .ok dataset)
include succeeds

/-- The records that are kept decide what holds of all throughputs of a run. -/
theorem every_iff_kept {P : Float → Prop} (zero : P 0) :
    dataset.aggregation.Every P ↔ ∀ r ∈ dataset.throughput,
      lastWithKey r.key dataset.throughput = some r → P (settings.aggregation.mops r) := by
  have aggregated := aggregate_of_ofPath succeeds
  obtain ⟨t, ran, same⟩ := Aggregation.ofRecords_eq_ok (aggregate_eq_ok aggregated)
  have counted : t.Counts (dataset.throughput.map (·.key)) := by
    simpa only [List.nil_append] using Aggregation.Tally.counts_empty.addAll ran
  rw [same]
  exact Aggregation.Tally.every_iff counted settings.aggregation.mops zero

/-- The throughputs of a run are numbers if those records that are kept are in range. -/
theorem numbered_iff_inRange :
    dataset.aggregation.Numbered ↔ ∀ r ∈ dataset.throughput,
      lastWithKey r.key dataset.throughput = some r → settings.aggregation.InRange r := by
  have window := window_of_aggregate (aggregate_of_ofPath succeeds)
  have zero : WrittenAsNumber 0 := writtenAsNumber_iff.mpr (by decide)
  unfold Aggregation.Numbered
  rw [every_iff_kept succeeds zero]
  simp only [writtenAsNumber_iff, AggregationRule.isFinite_mops_iff window]

theorem moderate_throughputs : dataset.aggregation.Every Moderate := by
  have window := window_of_aggregate (aggregate_of_ofPath succeeds)
  exact (every_iff_kept succeeds Double.moderate_zero).mpr fun r _ _ =>
    AggregationRule.moderate_mops window r

end Kept

open Counter (renamed textEntries)
open Decimal (Binary)

/-- A directory with one record runs under every rule that keeps the last record of a key. -/
theorem exists_dataset_renamed {rule : AggregationRule}
    (valid : AggregationRule.isValidWindow rule.window = true)
    (policy : rule.duplicates = .lastWriteWins) :
    let settings := { Settings.standard with aggregation := rule }
    let tree := FileTree.ofTexts [("benchmark_results_q1_p2.json", renamed)]
    ∃ dataset, (ofPath settings tree "r").value = .ok dataset ∧
      dataset.throughput = [⟨⟨5, 6⟩, 7, ∅⟩] := by
  intro settings tree
  have listed : tree.list "r" = .ok (textEntries [("benchmark_results_q1_p2.json", renamed)]) := by
    rfl
  have merged : mergedRecords settings (textEntries [("benchmark_results_q1_p2.json", renamed)]) =
      [⟨⟨5, 6⟩, 7, ∅⟩] := by
    rw [mergedRecords, discover_renamed]
    rfl
  obtain ⟨dataset, ran⟩ := @exists_dataset_of_lastWriteWins settings valid policy _
    (by rw [merged]; exact List.cons_ne_nil _ _) "r"
  obtain ⟨aggregation, -, same⟩ := ofDirectory_eq_ok ran
  refine ⟨dataset, ?_, ?_⟩
  · rw [ofPath_eq_ofDirectory settings listed]
    exact ran
  · rw [same, ← merged]
    exact Throughput.records_loadDirectory settings.maxFileBytes "r" _

/-- The cell of an only record holds its throughput. -/
theorem cell_of_aggregate {rule : AggregationRule} (policy : rule.duplicates = .lastWriteWins)
    {r : ThroughputRecord} {a : Aggregation} (succeeds : (aggregate rule [r]).value = .ok a) :
    a.matrix.get? r.key = some (rule.mops r) := by
  have ran := aggregate_eq_ok succeeds
  obtain ⟨a', ran', agree⟩ := Aggregation.ofRecords_views_agree rule.mops [r]
  rw [policy, ran'] at ran
  obtain ⟨last, found, holds⟩ := (agree r.key).1 ⟨r, List.mem_singleton_self r, rfl⟩
  have same : last = r := List.mem_singleton.mp (key_of_lastWithKey found).1
  rw [← Except.ok.inj ran, holds.cell, same]

/-- Whatever a run renders, its throughputs are numbers just if the operations per second of every
kept record are in the range of doubles, as they are for all records under windows longer than
`2 ^ (-960)` seconds and under no others. Such an aggregation is read from its place in the rendered
dataset, to where it ends, with the same axes, groups and duplicates and with numbers for numbers,
and as it was if the digits of its throughputs are read back; every other is refused there for a
null. -/
theorem rendered_throughputs_are_numbers_if_in_range {settings : Settings} {tree : FileTree}
    {path : String} {dataset : Dataset}
    (succeeds : (ofPath settings tree path).value = .ok dataset) :
    let rule := settings.aggregation
    let a := dataset.aggregation
    let b := a.mapMops reread
    (a.Numbered ↔ ∀ r ∈ dataset.throughput,
      lastWithKey r.key dataset.throughput = some r → rule.InRange r) ∧
    ((∀ r, rule.InRange r) ↔ 2 ^ (-960 : Int) < rule.seconds) ∧
    (b.SameShape a ∧ (a.Numbered → b.Numbered) ∧ (a.Every ReadsBack → b = a)) ∧
    ∃ back,
      dataset.toJson.indented.toList =
        dataset.beforeAggregation ++ (a.toJson.indentedChars 1 ++ back) ∧
      ∀ room,
        let read := Aggregation.reader (room + 5) (encode (a.toJson.indentedChars 1 ++ back))
        (a.Numbered → read = .ok (b, encode back)) ∧
        (¬ a.Numbered → read = .error (.mismatch (.wrongType .null "f64"))) := by
  intro rule a b
  have window := window_of_aggregate (aggregate_of_ofPath succeeds)
  have moderate := moderate_throughputs succeeds
  have shape := Aggregation.sameShape_mapMops reread a
  have numbers := Aggregation.numbered_reread moderate
  exact ⟨numbered_iff_inRange succeeds, AggregationRule.forall_inRange_iff window,
    ⟨shape, numbers, Aggregation.mapMops_reread⟩, dataset.indented_reads moderate⟩

/-- Half a second is long enough for every record, and the throughput of seven pops is read back. -/
theorem rendered_throughputs_are_numbers_renamed :
    ∃ dataset,
      (ofPath .standard (FileTree.ofTexts [("benchmark_results_q1_p2.json", renamed)]) "r").value =
        .ok dataset ∧
      dataset.throughput = [⟨⟨5, 6⟩, 7, ∅⟩] ∧ dataset.aggregation.Numbered ∧
      dataset.aggregation.matrix.get? ⟨5, 6⟩ = some 1.4e-5 ∧
      ∃ back,
        dataset.toJson.indented.toList =
          dataset.beforeAggregation ++ (dataset.aggregation.toJson.indentedChars 1 ++ back) ∧
        Aggregation.reader 126 (encode (dataset.aggregation.toJson.indentedChars 1 ++ back)) =
          .ok (dataset.aggregation, encode back) := by
  have window : AggregationRule.isValidWindow AggregationRule.standard.window = true := by decide
  obtain ⟨dataset, ran, records⟩ := exists_dataset_renamed window rfl
  obtain ⟨ranges, long, ⟨-, -, same⟩, back, rendered, reads⟩ :=
    rendered_throughputs_are_numbers_if_in_range ran
  have half : (2 : ℚ) ^ (-960 : Int) < AggregationRule.standard.seconds := by
    have seconds : AggregationRule.standard.seconds = 2 ^ (-1 : Int) := by
      show ((2 ^ 52 : Nat) : ℚ) * 2 ^ (-53 : Int) = _
      norm_num
    rw [seconds]
    exact zpow_lt_zpow_right₀ (by norm_num) (by norm_num)
  have numbered := ranges.mpr fun r _ _ => long.mpr half r
  have mops : AggregationRule.standard.mops ⟨⟨5, 6⟩, 7, ∅⟩ = 1.4e-5 := by decide +kernel
  have exact : dataset.aggregation.Every ReadsBack := by
    refine (every_iff_kept ran readsBack_zero).mpr fun r member _ => ?_
    rw [records, List.mem_singleton] at member
    have text : encode (Number.double 1.4e-5).text =
        [0x30, 0x2E, 0x30, 0x30, 0x30, 0x30, 0x31, 0x34] := by decide +kernel
    rw [member]
    exact mops ▸ readsBack_of_number text rfl (by decide +kernel)
  have aggregated := aggregate_of_ofPath ran
  rw [records] at aggregated
  have cell := @cell_of_aggregate AggregationRule.standard rfl ⟨⟨5, 6⟩, 7, ∅⟩ _ aggregated
  rw [mops] at cell
  have read := (reads 121).1 numbered
  rw [same exact] at read
  exact ⟨dataset, ran, records, numbered, cell, back, rendered, read⟩

/-- A window that is accepted, but too short for seven pops. -/
def tinyWindow : AggregationRule := ⟨1e-308, .lastWriteWins⟩

theorem throughput_tinyWindow : 7 / tinyWindow.seconds / 10 ^ 6 < Double.limit := by
  have long : 2 ^ (-1024 : Int) ≤ tinyWindow.seconds := by
    have mantissa : (Binary.ofBits tinyWindow.window.toBits).mantissa = 2024022533073106 := by
      decide +kernel
    have exponent : (Binary.ofBits tinyWindow.window.toBits).exponent = -1074 := by
      decide +kernel
    have scaled : (2 : ℚ) ^ (-1024 : Int) = 2 ^ 50 * 2 ^ (-1074 : Int) := by
      rw [show (-1024 : Int) = 50 + -1074 by norm_num, zpow_add₀ (by norm_num)]
      rfl
    rw [AggregationRule.seconds, Binary.value, mantissa, exponent, scaled]
    exact mul_le_mul_of_nonneg_right (by norm_num) (zpow_pos (by norm_num) _).le
  have positive : 0 < tinyWindow.seconds := lt_of_lt_of_le (zpow_pos (by norm_num) _) long
  rw [div_div, div_lt_iff₀ (mul_pos positive (by norm_num)), ← mul_assoc]
  calc (7 : ℚ) < 2 ^ (1023 : Int) * 2 ^ (-1024 : Int) * 10 ^ 6 := by
        rw [← zpow_add₀ (by norm_num)]
        norm_num
    _ ≤ Double.limit * tinyWindow.seconds * 10 ^ 6 := by
        have most : (2 : ℚ) ^ (1023 : Int) ≤ Double.limit :=
          (Double.zpow_lt_limit (by norm_num)).le
        exact mul_le_mul_of_nonneg_right
          (mul_le_mul most long (zpow_pos (by norm_num) _).le Double.limit_pos.le)
          (by norm_num)

/-- Under a window that is accepted the operations per second of seven pops are too many for a
double, though their throughput by the definition, seven over the window over a million, is not. Its
cell is written as a null, and the aggregation is not read back. -/
theorem tiny_window_renders_null :
    ∃ settings dataset x back,
      Settings.ofText "aggregate.measurement_window_secs = 1e-308" = .ok settings ∧
      (ofPath settings (FileTree.ofTexts [("benchmark_results_q1_p2.json", renamed)]) "r").value =
        .ok dataset ∧
      dataset.throughput = [⟨⟨5, 6⟩, 7, ∅⟩] ∧
      7 / settings.aggregation.seconds / 10 ^ 6 < Double.limit ∧
      dataset.aggregation.matrix.get? ⟨5, 6⟩ = some x ∧ Json.double x = .null ∧
      dataset.toJson.indented.toList =
        dataset.beforeAggregation ++ (dataset.aggregation.toJson.indentedChars 1 ++ back) ∧
      Aggregation.reader 126 (encode (dataset.aggregation.toJson.indentedChars 1 ++ back)) =
        .error (.mismatch (.wrongType .null "f64")) := by
  have window : AggregationRule.isValidWindow tinyWindow.window = true := by decide +kernel
  have accepted : Settings.ofText "aggregate.measurement_window_secs = 1e-308" =
      .ok { Settings.standard with aggregation := tinyWindow } := by
    apply toOption_eq_some.mp
    decide +kernel
  have infinite : ¬ (tinyWindow.mops ⟨⟨5, 6⟩, 7, ∅⟩).isFinite = true := by decide +kernel
  have null : Json.double (tinyWindow.mops ⟨⟨5, 6⟩, 7, ∅⟩) = .null := by
    rw [Json.double, if_neg infinite]
  obtain ⟨dataset, ran, records⟩ := exists_dataset_renamed window rfl
  have aggregated := aggregate_of_ofPath ran
  rw [records] at aggregated
  have refused : ¬ dataset.aggregation.Numbered := by
    rw [numbered_iff_inRange ran, records]
    intro all
    have own := all _ (List.mem_singleton_self _) rfl
    exact infinite ((AggregationRule.isFinite_mops_iff window).mpr own)
  have cell := @cell_of_aggregate tinyWindow rfl ⟨⟨5, 6⟩, 7, ∅⟩ _ aggregated
  obtain ⟨back, rendered, reads⟩ := dataset.indented_reads (moderate_throughputs ran)
  exact ⟨_, dataset, _, back, accepted, ran, records, throughput_tinyWindow, cell, null, rendered,
    (reads 121).2 refused⟩

end Dataset

end QueueBench
