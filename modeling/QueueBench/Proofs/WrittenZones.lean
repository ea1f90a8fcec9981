import QueueBench.Proofs.LosslessDocuments
import QueueBench.Proofs.WrittenRecords
import QueueBench.ZoneTrace.Load

set_option autoImplicit false

namespace QueueBench

open Json (Problem ReadsBack Takes WritesBack)
open Json.Reader (Ends openStep onceStep openStep_known openStep_other onceStep_written
  readsAs_string bind_of_ok documentRoom)

namespace Cell

/-- Whether a cell has a written form of its own. -/
def hasForm : Cell → Bool
  | double x => x.isFinite
  | _ => true

theorem ofJson?_integer (i : Int64) : ofJson? (Json.integer i) = some (integer i) := by
  unfold Json.integer
  split
  case isTrue => rfl
  case isFalse natural =>
    rw [Int64.lt_iff_toInt_lt] at natural
    have nonneg : 0 ≤ i.toBitVec.toInt := Int.not_lt.mp natural
    have small : i.toUInt64.toNat < Word.bound 63 := by
      have half := BitVec.toInt_pos_iff.mp nonneg
      rw [Int64.toNat_toBitVec] at half
      have bound : Word.bound 63 = 2 ^ 63 := rfl
      omega
    rw [ofJson?, if_pos small, Int64.toInt64_toUInt64]

/-- A cell is shown by its own value if it has a form, and by none otherwise. -/
theorem ofJson?_toJson (c : Cell) : ofJson? c.toJson = if c.hasForm then some c else none := by
  cases c with
  | integer i => exact ofJson?_integer i
  | text s => rfl
  | double x =>
    rw [toJson, Json.double, hasForm]
    by_cases finite : x.isFinite = true
    · rw [if_pos finite, if_pos finite]
      rfl
    · rw [if_neg finite, if_neg finite]
      rfl

theorem reader_written {room : Nat} {v : Json} (writes : WritesBack room v) {rest : Json.Bytes}
    (ends : Ends rest) :
    reader room (Text.Utf8.encode v.chars ++ rest) = match ofJson? v with
      | some c => .ok (c, rest)
      | none => .error (.mismatch (.noForm "FieldValue")) := by
  unfold reader
  rw [bind_of_ok (writes.reads rest ends)]
  cases ofJson? v <;> rfl

theorem readable_toJson (room : Nat) (c : Cell) : Json.Readable room c.toJson := by
  cases c with
  | integer i =>
    rw [toJson, Json.integer]
    split
    · exact .negative ‹_›
    · exact .natural _
  | text s => exact .string s
  | double x =>
    rw [toJson, Json.double]
    split
    · exact .double x
    · exact .null

end Cell

namespace ZoneTraceRecord

/-- The cells of a record with the names of their fields. -/
def cells (r : ZoneTraceRecord) : List (String × Cell) :=
  [("srcLine", r.srcLine), ("totalNs", r.totalNs), ("totalPerc", r.totalPerc),
    ("counts", r.counts), ("meanNs", r.meanNs), ("minNs", r.minNs), ("maxNs", r.maxNs),
    ("stdNs", r.stdNs)]

def cellMember (named : String × Cell) : String × Json := (named.1, named.2.toJson)

def leading (r : ZoneTraceRecord) : List (String × Json) :=
  r.key.members ++ [("name", .string r.name), ("srcFile", .string r.srcFile)]

theorem toJson_eq (r : ZoneTraceRecord) :
    r.toJson = .object (r.leading ++ r.cells.map cellMember) := rfl

/-- What a member does to a draft and the members kept beside it. -/
def effect (all : Draft × List (String × Json)) (m : String × Json) :
    Except Problem (Draft × List (String × Json)) :=
  if textFields.contains m.1 then
    if (all.1.texts.lookup m.1).isSome then .error (.mismatch (.duplicateField m.1))
    else ((Json.textIn "a string" m.2).mapError .mismatch).map fun s =>
      ({ all.1 with texts := (m.1, s) :: all.1.texts }, all.2)
  else if cellFields.contains m.1 then
    if (all.1.cells.lookup m.1).isSome then .error (.mismatch (.duplicateField m.1))
    else match Cell.ofJson? m.2 with
      | some c => .ok ({ all.1 with cells := (m.1, c) :: all.1.cells }, all.2)
      | none => .error (.mismatch (.noForm "FieldValue"))
  else .ok (all.1, m :: all.2)

theorem fields_of_mem_cells {r : ZoneTraceRecord} {named : String × Cell}
    (member : named ∈ r.cells) :
    ¬ textFields.contains named.1 = true ∧ cellFields.contains named.1 = true := by
  have inside : named.1 ∈ cellFields := List.mem_map_of_mem (f := Prod.fst) member
  have apart : ∀ field ∈ cellFields, ¬ textFields.contains field = true := by decide
  exact ⟨apart _ inside, List.contains_iff_mem.mpr inside⟩

section Takes

variable {room : Nat} {name : String}

theorem step_text (field : textFields.contains name = true) (d : Draft) :
    Draft.step room name d = some (onceStep (d.texts.lookup name).isSome name
      (Json.Reader.string "a string") fun s => { d with texts := (name, s) :: d.texts }) := by
  unfold Draft.step
  rw [if_pos field]
  rfl

theorem step_cell (other : ¬ textFields.contains name = true)
    (field : cellFields.contains name = true) (d : Draft) :
    Draft.step room name d = some (onceStep (d.cells.lookup name).isSome name (Cell.reader room)
      fun c => { d with cells := (name, c) :: d.cells }) := by
  unfold Draft.step
  rw [if_neg other, if_pos field]
  rfl

theorem takes_text (s : String) (field : textFields.contains name = true) :
    Takes (openStep Draft.step room) effect (name, .string s) := by
  intro all rest ends
  obtain ⟨d, kept⟩ := all
  rw [openStep_known (step_text field d), onceStep_written, readsAs_string "a string" s rest ends]
  unfold effect
  rw [if_pos field]
  split <;> rfl

theorem takes_cell {v : Json} (writes : WritesBack room v)
    (other : ¬ textFields.contains name = true) (field : cellFields.contains name = true) :
    Takes (openStep Draft.step room) effect (name, v) := by
  intro all rest ends
  obtain ⟨d, kept⟩ := all
  rw [openStep_known (step_cell other field d), onceStep_written, Cell.reader_written writes ends]
  unfold effect
  rw [if_neg other, if_pos field]
  dsimp only
  split
  · rfl
  · cases Cell.ofJson? v <;> rfl

theorem takes_other {v : Json} (writes : WritesBack room v)
    (other : ¬ textFields.contains name = true) (unknown : ¬ cellFields.contains name = true) :
    Takes (openStep Draft.step room) effect (name, v) := by
  intro all rest ends
  obtain ⟨d, kept⟩ := all
  have known : Draft.step room name d = none := by
    unfold Draft.step
    rw [if_neg other, if_neg unknown]
  rw [openStep_other known writes kept ends]
  unfold effect
  rw [if_neg other, if_neg unknown]
  rfl

end Takes

/-- Every member of a written record is taken as it should be. -/
theorem takes_member {room : Nat} {r : ZoneTraceRecord}
    (exact : ∀ x ∈ r.toJson.doubles, ReadsBack x) :
    ∀ m ∈ r.leading ++ r.cells.map cellMember, Takes (openStep Draft.step room) effect m := by
  intro m member
  rw [leading, List.mem_append, List.mem_append] at member
  rcases member with (key | text) | cell
  · have writes : ∀ n, WritesBack room (Json.natural n) := fun n =>
      Json.writesBack_number (Json.Reader.numberRun_natural n)
    simp only [Key.members, List.mem_cons, List.not_mem_nil, or_false] at key
    rcases key with rfl | rfl
    · exact takes_other (writes _) (by decide) (by decide)
    · exact takes_other (writes _) (by decide) (by decide)
  · simp only [List.mem_cons, List.not_mem_nil, or_false] at text
    rcases text with rfl | rfl
    · exact takes_text _ (by decide)
    · exact takes_text _ (by decide)
  · obtain ⟨named, inside, rfl⟩ := List.mem_map.mp cell
    obtain ⟨other, field⟩ := fields_of_mem_cells inside
    refine takes_cell ((Cell.readable_toJson room named.2).writesBack ?_) other field
    intro x double
    apply exact
    rw [toJson_eq, Json.mem_doubles_object]
    exact ⟨cellMember named, List.mem_append_right _ (List.mem_map_of_mem inside), double⟩

theorem effect_cell {d : Draft} {kept : List (String × Json)} {named : String × Cell}
    (other : ¬ textFields.contains named.1 = true) (field : cellFields.contains named.1 = true)
    (fresh : d.cells.lookup named.1 = none) :
    effect (d, kept) (cellMember named) =
      if named.2.hasForm then .ok ({ d with cells := named :: d.cells }, kept)
      else .error (.mismatch (.noForm "FieldValue")) := by
  unfold effect cellMember
  dsimp only
  rw [if_neg other, if_pos field, fresh, if_neg (by simp), Cell.ofJson?_toJson]
  cases named.2.hasForm <;> rfl

/-- Cells of fields that were not there are taken if all have a form, and the first without one
stops. -/
theorem foldlM_cells {named : List (String × Cell)} {d : Draft}
    (fields : ∀ m ∈ named, ¬ textFields.contains m.1 = true ∧ cellFields.contains m.1 = true)
    (once : (named.map (·.1)).Nodup) (fresh : ∀ m ∈ named, d.cells.lookup m.1 = none)
    (kept : List (String × Json)) :
    (named.map cellMember).foldlM effect (d, kept) =
      if named.all fun m => m.2.hasForm then
        .ok ({ d with cells := named.reverse ++ d.cells }, kept)
      else .error (.mismatch (.noForm "FieldValue")) := by
  induction named generalizing d with
  | nil => rfl
  | cons m later ih =>
    obtain ⟨other, field⟩ := fields m List.mem_cons_self
    obtain ⟨apart, once⟩ := List.nodup_cons.mp once
    rw [List.map_cons, List.foldlM_cons, effect_cell other field (fresh m List.mem_cons_self),
      List.all_cons]
    by_cases form : m.2.hasForm = true
    · have still : ∀ n ∈ later, (m :: d.cells).lookup n.1 = none := by
        intro n member
        have different : (n.1 == m.1) = false := by
          rw [beq_eq_false_iff_ne]
          intro same
          exact apart (List.mem_map.mpr ⟨n, member, same⟩)
        rw [List.lookup_cons, different]
        exact fresh n (List.mem_cons_of_mem m member)
      rw [if_pos form, form, Bool.true_and, List.reverse_cons, List.append_assoc,
        List.singleton_append]
      exact ih (fun n member => fields n (List.mem_cons_of_mem m member)) once still
    · rw [if_neg form, Bool.eq_false_iff.mpr form, Bool.false_and]
      rfl

/-- The draft that the members before the cells make. -/
def headed (r : ZoneTraceRecord) : Draft := ⟨[("srcFile", r.srcFile), ("name", r.name)], []⟩

theorem foldlM_leading (r : ZoneTraceRecord) :
    r.leading.foldlM effect ({}, []) = .ok (r.headed, r.key.members.reverse) := by
  rfl

theorem foldlM_members (r : ZoneTraceRecord) :
    (r.leading ++ r.cells.map cellMember).foldlM effect ({}, []) =
      if r.cells.all fun named => named.2.hasForm then
        .ok ({ r.headed with cells := r.cells.reverse }, r.key.members.reverse)
      else .error (.mismatch (.noForm "FieldValue")) := by
  have once : (r.cells.map (·.1)).Nodup := show cellFields.Nodup by decide
  have fresh : ∀ named ∈ r.cells, r.headed.cells.lookup named.1 = none := fun _ _ => rfl
  have cells := foldlM_cells (fun _ => fields_of_mem_cells) once fresh r.key.members.reverse
  rw [List.foldlM_append, foldlM_leading]
  exact cells.trans (by rw [show r.headed.cells = [] from rfl, List.append_nil])

theorem finish_written (r : ZoneTraceRecord) :
    Draft.finish { r.headed with cells := r.cells.reverse } r.key.members = .ok r := by
  show (do
    let key ← Key.ofMembers r.key.members
    return (⟨key, r.name, r.srcFile, r.srcLine, r.totalNs, r.totalPerc, r.counts, r.meanNs,
      r.minNs, r.maxNs, r.stdNs⟩ : ZoneTraceRecord)) = _
  rw [Key.ofMembers_members]
  rfl

/-- The record that a written record is read as, or the problem of one with a cell that has no
form. -/
theorem run_reader_written {r : ZoneTraceRecord} (exact : ∀ x ∈ r.toJson.doubles, ReadsBack x) :
    Json.Reader.run (reader documentRoom) r.toJson.compact.toUTF8.data.toList =
      if r.cells.all fun named => named.2.hasForm then .ok r
      else .error (.mismatch (.noForm "FieldValue")) := by
  have read : reader documentRoom (Text.Utf8.encode r.toJson.chars ++ []) =
      ((r.leading ++ r.cells.map cellMember).foldlM effect ({}, [])).bind fun all =>
        ((Draft.finish all.1 all.2.reverse).mapError Problem.mismatch).map (·, []) :=
    Json.Reader.openRecord_written (Json.takesAll_foldlM (takes_member exact) _) []
  rw [foldlM_members] at read
  rw [Json.bytes_compact]
  unfold Json.Reader.run
  rw [read]
  split
  case isTrue =>
    dsimp only [Except.bind]
    rw [List.reverse_reverse, finish_written]
    rfl
  case isFalse => rfl

end ZoneTraceRecord

namespace ZoneTrace

open ZoneTraceRecord (cells reader)

/-- A record that an export gives is read back from its written form, with every cell of the kind
and value that it was, if all its doubles are finite. If one is not, the written form is refused. -/
theorem exported_records_read_back_if_finite (limit : Nat) (dir : String) (a : Artifact) :
    ∀ r ∈ (Export.ofArtifact limit dir a).records, (∀ x ∈ r.toJson.doubles, ReadsBack x) →
      let read := Json.Reader.run (reader documentRoom) r.toJson.compact.toUTF8.data.toList
      ((∀ field x, (field, .double x) ∈ r.cells → x.isFinite = true) → read = .ok r) ∧
      (∀ field x, (field, .double x) ∈ r.cells → x.isFinite = false →
        read = .error (.mismatch (.noForm "FieldValue"))) := by
  intro r _ exact read
  have decided := ZoneTraceRecord.run_reader_written exact
  constructor
  · intro finite
    have formed : (r.cells.all fun named => named.2.hasForm) = true := by
      rw [List.all_eq_true]
      rintro ⟨field, c⟩ member
      cases c with
      | double x => exact finite field x member
      | integer i => rfl
      | text s => rfl
    rw [if_pos formed] at decided
    exact decided
  · intro field x member infinite
    have formless : ¬ (r.cells.all fun named => named.2.hasForm) = true := by
      intro formed
      have finite := List.all_eq_true.mp formed _ member
      rw [Cell.hasForm, infinite] at finite
      cases finite
    rw [if_neg formless] at decided
    exact decided

/-- An export with one row, which has a name and the longest time. -/
def sampled (longest : String) : Artifact :=
  ⟨"tracy_q8_p1.csv", .exact ⟨8, 1⟩, .ok ("name,max_ns\nPop," ++ longest).toUTF8⟩

def sample (longest : Float) : ZoneTraceRecord :=
  ⟨⟨8, 1⟩, "Pop", "", .integer 0, .double 0, .double 0, .integer 0, .double 0, .double 0,
    .double longest, .double 0⟩

theorem records_sampled_half :
    (Export.ofArtifact 1000 "r" (sampled "0.5")).records = [sample 0.5] := by
  decide +kernel

theorem records_sampled_inf :
    (Export.ofArtifact 1000 "r" (sampled "inf")).records = [sample (1 / 0)] := by
  decide +kernel

theorem exported_records_read_back_half :
    sample 0.5 ∈ (Export.ofArtifact 1000 "r" (sampled "0.5")).records ∧
      (∀ x ∈ (sample 0.5).toJson.doubles, ReadsBack x) ∧
      (∀ field x, (field, .double x) ∈ (sample 0.5).cells → x.isFinite = true) ∧
      Json.Reader.run (reader documentRoom) (sample 0.5).toJson.compact.toUTF8.data.toList =
        .ok (sample 0.5) := by
  have member : sample 0.5 ∈ (Export.ofArtifact 1000 "r" (sampled "0.5")).records := by
    rw [records_sampled_half]
    exact List.mem_singleton_self _
  have exact : ∀ x ∈ (sample 0.5).toJson.doubles, ReadsBack x := by
    have doubles : (sample 0.5).toJson.doubles = [0, 0, 0, 0, 0.5, 0] := by decide +kernel
    rw [doubles]
    simp [Json.Reader.readsBack_zero, Json.Reader.readsBack_half]
  have formed : ((sample 0.5).cells.all fun named => named.2.hasForm) = true := by decide +kernel
  have finite : ∀ field x, (field, .double x) ∈ (sample 0.5).cells → x.isFinite = true :=
    fun _ _ inside => List.all_eq_true.mp formed _ inside
  exact ⟨member, exact, finite,
    (exported_records_read_back_if_finite 1000 "r" (sampled "0.5") _ member exact).1 finite⟩

/-- A time that is not finite is lost: it is written as null, and that is no cell of any kind. -/
theorem infinite_time_is_not_read_back :
    ∃ r ∈ (Export.ofArtifact 1000 "r" (sampled "inf")).records,
      r.maxNs = .double (1 / 0) ∧ r.toJson.member? "maxNs" = some .null ∧
        (∀ x ∈ r.toJson.doubles, ReadsBack x) ∧
          Json.Reader.run (reader documentRoom) r.toJson.compact.toUTF8.data.toList =
            .error (.mismatch (.noForm "FieldValue")) := by
  have member : sample (1 / 0) ∈ (Export.ofArtifact 1000 "r" (sampled "inf")).records := by
    rw [records_sampled_inf]
    exact List.mem_singleton_self _
  have exact : ∀ x ∈ (sample (1 / 0)).toJson.doubles, ReadsBack x := by
    have doubles : (sample (1 / 0)).toJson.doubles = [0, 0, 0, 0, 0] := by decide +kernel
    rw [doubles]
    simp [Json.Reader.readsBack_zero]
  have formless : ¬ ((sample (1 / 0)).cells.all fun named => named.2.hasForm) = true := by
    decide +kernel
  have refused := ZoneTraceRecord.run_reader_written exact
  rw [if_neg formless] at refused
  have null : (sample (1 / 0)).toJson.member? "maxNs" = some .null := by rfl
  exact ⟨_, member, rfl, null, exact, refused⟩

end ZoneTrace

end QueueBench
