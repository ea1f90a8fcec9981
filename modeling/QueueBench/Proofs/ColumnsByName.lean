import Mathlib.Logic.Relation
import QueueBench.Proofs.FileReports

set_option autoImplicit false

namespace QueueBench.ZoneTrace

open Artifact (pathIn)

/-- The names of the columns: what the header's cells say, without the blanks around it. -/
def columnNames (header : Csv.Row) : List String :=
  header.map fun name => String.ofList (Text.trim (Text.Utf8.decodeLossy name))

theorem trimmed_cellText (bytes : List UInt8) :
    trimmed (cellText bytes) = String.ofList (Text.trim (Text.Utf8.decodeLossy bytes)) := by
  rw [trimmed, cellText, String.toList_ofList]

theorem lt_length_of_named {header : Csv.Row} {place : Nat} {name : String}
    (named : (columnNames header)[place]? = some name) : place < header.length := by
  obtain ⟨inside, -⟩ := List.getElem?_eq_some_iff.mp named
  unfold columnNames at inside
  rw [List.length_map] at inside
  exact inside

/-- The bytes of a cell; one that is not there is empty. -/
def cellAt (row : Csv.Row) (place : Nat) : List UInt8 := row[place]?.getD []

structure FirstPlace (header : Csv.Row) (column : String) (place : Nat) : Prop where
  named : (columnNames header)[place]? = some column
  first : ∀ earlier < place, (columnNames header)[earlier]? ≠ some column

/-- The text that stands in a row under the first column of a name, or none if there is no such
column. -/
inductive StandsUnder (header row : Csv.Row) (column : String) : String → Prop where
  | present (place : Nat) (found : FirstPlace header column place) :
      StandsUnder header row column (String.ofList (Text.Utf8.decodeLossy (cellAt row place)))
  | absent (missing : column ∉ columnNames header) : StandsUnder header row column ""

theorem FirstPlace.unique {header : Csv.Row} {column : String} {i j : Nat}
    (here : FirstPlace header column i) (there : FirstPlace header column j) : i = j := by
  rcases Nat.lt_trichotomy i j with before | same | behind
  · exact absurd here.named (there.first i before)
  · exact same
  · exact absurd there.named (here.first j behind)

theorem StandsUnder.unique {header row : Csv.Row} {column s t : String}
    (here : StandsUnder header row column s) (there : StandsUnder header row column t) : s = t := by
  cases here with
  | present i found =>
    cases there with
    | present j found' => rw [found.unique found']
    | absent missing => exact absurd (List.mem_of_getElem? found.named) missing
  | absent missing =>
    cases there with
    | present j found => exact absurd (List.mem_of_getElem? found.named) missing
    | absent => rfl

theorem findIdx?_eq_some_iff {header : Csv.Row} {column : String} {place : Nat} :
    (columnNames header).findIdx? (· == column) = some place ↔ FirstPlace header column place := by
  rw [List.findIdx?_eq_some_iff_getElem]
  constructor
  · intro found
    obtain ⟨inside, named, first⟩ := found
    constructor
    case named => rw [List.getElem?_eq_getElem inside, beq_iff_eq.mp named]
    case first =>
      intro earlier before same
      obtain ⟨_, named'⟩ := List.getElem?_eq_some_iff.mp same
      exact first earlier before (beq_iff_eq.mpr named')
  · intro found
    obtain ⟨inside, named⟩ := List.getElem?_eq_some_iff.mp found.named
    refine ⟨inside, beq_iff_eq.mpr named, ?_⟩
    intro earlier before same
    apply found.first earlier before
    rw [List.getElem?_eq_getElem (Nat.lt_trans before inside), beq_iff_eq.mp same]

theorem lookup_places {header : Csv.Row} {column : String} (consumed : column ∈ columns) :
    (places header).lookup column = (columnNames header).findIdx? (· == column) := by
  have answered := lookup_filterMap (fun c => (columnNames header).findIdx? (· == c)) columns column
  rw [if_pos consumed] at answered
  simp only [places, trimmed_cellText]
  exact answered

/-- The text that is read for a column stands under its name. -/
theorem standsUnder_cell {column : String} (consumed : column ∈ columns) (header row : Csv.Row) :
    StandsUnder header row column (cell (places header) row column) := by
  unfold cell
  rw [lookup_places consumed]
  cases found : (columnNames header).findIdx? (· == column) with
  | none =>
    refine .absent fun member => ?_
    have differ := List.findIdx?_eq_none_iff.mp found column member
    rw [beq_self_eq_true] at differ
    cases differ
  | some place =>
    have stands : StandsUnder header row column _ :=
      .present place (findIdx?_eq_some_iff.mp found)
    rw [Option.bind_some]
    unfold cellAt at stands
    cases held : row[place]? with
    | none =>
      rw [held] at stands
      exact stands
    | some bytes =>
      rw [held] at stands
      exact stands

/-- What a row gives: every field is read from the text under its own column, two fields as texts,
two as integers and six as doubles. -/
structure Gives (key : Key) (header row : Csv.Row) (r : ZoneTraceRecord) : Prop where
  key : r.key = key
  name : ∃ text, StandsUnder header row "name" text ∧
    r.name = String.ofList (Text.trim text.toList)
  srcFile : ∃ text, StandsUnder header row "src_file" text ∧
    r.srcFile = String.ofList (Text.trim text.toList)
  srcLine : ∃ text, StandsUnder header row "src_line" text ∧ r.srcLine = .coerceInteger text
  totalNs : ∃ text, StandsUnder header row "total_ns" text ∧ r.totalNs = .coerceDouble text
  totalPerc : ∃ text, StandsUnder header row "total_perc" text ∧ r.totalPerc = .coerceDouble text
  counts : ∃ text, StandsUnder header row "counts" text ∧ r.counts = .coerceInteger text
  meanNs : ∃ text, StandsUnder header row "mean_ns" text ∧ r.meanNs = .coerceDouble text
  minNs : ∃ text, StandsUnder header row "min_ns" text ∧ r.minNs = .coerceDouble text
  maxNs : ∃ text, StandsUnder header row "max_ns" text ∧ r.maxNs = .coerceDouble text
  stdNs : ∃ text, StandsUnder header row "std_ns" text ∧ r.stdNs = .coerceDouble text

theorem gives_recordOf (key : Key) {header row : Csv.Row} {text : String → String}
    (stands : ∀ column ∈ columns, StandsUnder header row column (text column)) :
    Gives key header row (recordOf key text) := by
  simp only [columns, List.forall_mem_cons] at stands
  obtain ⟨name, srcFile, srcLine, totalNs, totalPerc, counts, meanNs, minNs, maxNs, stdNs, -⟩ :=
    stands
  exact ⟨rfl, ⟨_, name, rfl⟩, ⟨_, srcFile, rfl⟩, ⟨_, srcLine, rfl⟩, ⟨_, totalNs, rfl⟩,
    ⟨_, totalPerc, rfl⟩, ⟨_, counts, rfl⟩, ⟨_, meanNs, rfl⟩, ⟨_, minNs, rfl⟩, ⟨_, maxNs, rfl⟩,
    ⟨_, stdNs, rfl⟩⟩

theorem forall₂_gives (key : Key) (header : Csv.Row) (rows : List Csv.Row) :
    rows.Forall₂ (Gives key header) (recordsOf key (header :: rows)) :=
  List.forall₂_map_right_iff.mpr (List.forall₂_same.mpr fun row _ =>
    gives_recordOf key fun _ consumed => standsUnder_cell consumed header row)

/-- A record depends only on the texts of the columns that are read. -/
theorem recordOf_congr (key : Key) {text text' : String → String}
    (same : ∀ column ∈ columns, text column = text' column) :
    recordOf key text = recordOf key text' := by
  simp only [columns, List.forall_mem_cons] at same
  obtain ⟨name, srcFile, srcLine, totalNs, totalPerc, counts, meanNs, minNs, maxNs, stdNs, -⟩ :=
    same
  simp only [recordOf, name, srcFile, srcLine, totalNs, totalPerc, counts, meanNs, minNs, maxNs,
    stdNs]

/-- No name that is read stands over two columns. -/
def NamedOnce (header : Csv.Row) : Prop :=
  ∀ column ∈ columns, ∀ i j : Nat, (columnNames header)[i]? = some column →
    (columnNames header)[j]? = some column → i = j

theorem namedOnce_of_nodup {header : Csv.Row} (distinct : (columnNames header).Nodup) :
    NamedOnce header := by
  intro column _ i j named named'
  obtain ⟨inside, -⟩ := List.getElem?_eq_some_iff.mp named
  exact (List.getElem?_inj inside distinct).mp (named.trans named'.symm)

/-- Every column of a header stands in the other one, at a place of its own choice, and what else
stands there has no name that is read. -/
structure Rearranged (header header' : Csv.Row) (move : Nat → Nat) : Prop where
  names : ∀ i < header.length, (columnNames header')[move i]? = (columnNames header)[i]?
  others : ∀ place : Nat, (∀ i < header.length, move i ≠ place) →
    ∀ name ∈ (columnNames header')[place]?, name ∉ columns

/-- The cells of a row stand in the other one where their columns do. -/
def Follows (header : Csv.Row) (move : Nat → Nat) (row row' : Csv.Row) : Prop :=
  ∀ i < header.length, cellAt row' (move i) = cellAt row i

section Rearranged

variable {header header' : Csv.Row} {move : Nat → Nat} {column : String}

/-- A column of the other header with a name that is read is one of the columns. -/
theorem Rearranged.exists_source (rearranged : Rearranged header header' move)
    (consumed : column ∈ columns) {place : Nat}
    (named : (columnNames header')[place]? = some column) :
    ∃ i < header.length, move i = place ∧ (columnNames header)[i]? = some column := by
  by_cases moved : ∃ i < header.length, move i = place
  · obtain ⟨i, inside, same⟩ := moved
    refine ⟨i, inside, same, ?_⟩
    rw [← rearranged.names i inside, same, named]
  · have other : ∀ i < header.length, move i ≠ place := fun i inside same =>
      moved ⟨i, inside, same⟩
    exact absurd consumed (rearranged.others place other column named)

theorem Rearranged.firstPlace (rearranged : Rearranged header header' move)
    (once : NamedOnce header) (consumed : column ∈ columns) {place : Nat}
    (found : FirstPlace header column place) :
    place < header.length ∧ FirstPlace header' column (move place) := by
  have inside := lt_length_of_named found.named
  refine ⟨inside, ?_⟩
  constructor
  case named => rw [rearranged.names place inside, found.named]
  case first =>
    intro earlier before named
    obtain ⟨i, -, same, named⟩ := rearranged.exists_source consumed named
    -- another column of the name would repeat it
    have repeated := once column consumed i place named found.named
    rw [← same, repeated] at before
    exact Nat.lt_irrefl _ before

theorem Rearranged.standsUnder (rearranged : Rearranged header header' move)
    (once : NamedOnce header) (consumed : column ∈ columns) {row row' : Csv.Row}
    (follows : Follows header move row row') {text : String}
    (stands : StandsUnder header row column text) : StandsUnder header' row' column text := by
  cases stands with
  | present place found =>
    obtain ⟨inside, found'⟩ := rearranged.firstPlace once consumed found
    rw [← follows place inside]
    exact .present (move place) found'
  | absent missing =>
    refine .absent fun member => ?_
    obtain ⟨place, named⟩ := List.getElem?_of_mem member
    obtain ⟨i, -, -, named⟩ := rearranged.exists_source consumed named
    exact missing (List.mem_of_getElem? named)

theorem Rearranged.recordsOf_eq (rearranged : Rearranged header header' move)
    (once : NamedOnce header) {rows rows' : List Csv.Row}
    (follow : rows.Forall₂ (Follows header move) rows') (key : Key) :
    recordsOf key (header' :: rows') = recordsOf key (header :: rows) := by
  have read : ∀ {row row' : Csv.Row}, Follows header move row row' →
      recordOf key (cell (places header') row') = recordOf key (cell (places header) row) := by
    intro row row' follows
    apply recordOf_congr
    intro column consumed
    have own := standsUnder_cell consumed header row
    exact (standsUnder_cell consumed header' row').unique
      (rearranged.standsUnder once consumed follows own)
  show rows'.map _ = rows.map _
  induction follow with
  | nil => rw [List.map_nil, List.map_nil]
  | cons first rest ih => rw [List.map_cons, List.map_cons, read first, ih]

theorem Rearranged.namedOnce (rearranged : Rearranged header header' move)
    (once : NamedOnce header) : NamedOnce header' := by
  intro column consumed i j named named'
  obtain ⟨k, -, moved, own⟩ := rearranged.exists_source consumed named
  obtain ⟨k', -, moved', own'⟩ := rearranged.exists_source consumed named'
  rw [← moved, ← moved', once column consumed k k' own own']

end Rearranged

theorem getElem?_eq_some_cellAt {row : Csv.Row} {i : Nat} (inside : i < row.length) :
    row[i]? = some (cellAt row i) := by
  unfold cellAt
  rw [List.getElem?_eq_getElem inside]
  rfl

theorem getElem?_columnNames (header : Csv.Row) (i : Nat) :
    (columnNames header)[i]? =
      (header[i]?).map fun name => String.ofList (Text.trim (Text.Utf8.decodeLossy name)) :=
  List.getElem?_map

/-- The cells at the places of an order; the ones that a short row lacks are empty. -/
def arranged (order : List Nat) (row : Csv.Row) : Csv.Row := order.map (cellAt row)

/-- A row with a further cell at a place; a row that does not reach it is filled up. -/
def withCell (place : Nat) (cell : List UInt8) (row : Csv.Row) : Csv.Row :=
  (List.range place).map (cellAt row) ++ cell :: row.drop place

theorem length_front (place : Nat) (row : Csv.Row) :
    ((List.range place).map (cellAt row)).length = place := by
  rw [List.length_map, List.length_range]

theorem length_withCell {place : Nat} {row : Csv.Row} (inside : place ≤ row.length)
    (cell : List UInt8) : (withCell place cell row).length = row.length + 1 := by
  unfold withCell
  rw [List.length_append, length_front, List.length_cons, List.length_drop]
  omega

theorem getElem?_withCell (place : Nat) (cell : List UInt8) (row : Csv.Row) :
    (withCell place cell row)[place]? = some cell := by
  have front := length_front place row
  unfold withCell
  rw [List.getElem?_append_right (by omega), front, Nat.sub_self, List.getElem?_cons_zero]

/-- A row below a header with a further column at a place: it has a cell there, or ends before. -/
inductive Widened (place : Nat) (row : Csv.Row) : Csv.Row → Prop where
  | filled (cell : List UInt8) : Widened place row (withCell place cell row)
  | short (ends : row.length ≤ place) : Widened place row row

/-- Where a cell stands once there is a further one at a place. -/
def past (place i : Nat) : Nat := if i < place then i else i + 1

theorem getElem?_arranged_idxOf {order : List Nat} {i : Nat} (member : i ∈ order) (row : Csv.Row) :
    (arranged order row)[order.idxOf i]? = some (cellAt row i) := by
  unfold arranged
  rw [List.getElem?_map, List.getElem?_idxOf member]
  rfl

theorem getElem?_withCell_past (place i : Nat) (cell : List UInt8) (row : Csv.Row) :
    (withCell place cell row)[past place i]? =
      if i < place then some (cellAt row i) else row[i]? := by
  have front := length_front place row
  unfold withCell past
  by_cases before : i < place
  · rw [if_pos before, if_pos before, List.getElem?_append_left (by omega), List.getElem?_map,
      List.getElem?_range before]
    rfl
  · have shifted : i + 1 - place = i - place + 1 := by omega
    have back : place + (i - place) = i := by omega
    rw [if_neg before, if_neg before, List.getElem?_append_right (by omega), front, shifted,
      List.getElem?_cons_succ, List.getElem?_drop, back]

theorem rearranged_arranged {header : Csv.Row} {order : List Nat}
    (all : order.Perm (List.range header.length)) :
    Rearranged header (arranged order header) order.idxOf where
  names i inside := by
    have member : i ∈ order := all.mem_iff.mpr (List.mem_range.mpr inside)
    rw [getElem?_columnNames, getElem?_columnNames, getElem?_arranged_idxOf member,
      getElem?_eq_some_cellAt inside]
  others place unmoved name named := by
    have bound := lt_length_of_named named
    unfold arranged at bound
    rw [List.length_map] at bound
    have inside : order[place] < header.length :=
      List.mem_range.mp (all.mem_iff.mp (List.getElem_mem bound))
    have distinct : order.Nodup := all.nodup_iff.mpr List.nodup_range
    exact absurd (distinct.idxOf_getElem place bound) (unmoved _ inside)

theorem follows_arranged {header : Csv.Row} {order : List Nat}
    (all : order.Perm (List.range header.length)) (row : Csv.Row) :
    Follows header order.idxOf row (arranged order row) := by
  intro i inside
  have member : i ∈ order := all.mem_iff.mpr (List.mem_range.mpr inside)
  unfold cellAt
  rw [getElem?_arranged_idxOf member]
  rfl

theorem rearranged_withCell {header : Csv.Row} {place : Nat} {name : List UInt8}
    (inside : place ≤ header.length)
    (unread : String.ofList (Text.trim (Text.Utf8.decodeLossy name)) ∉ columns) :
    Rearranged header (withCell place name header) (past place) where
  names i within := by
    rw [getElem?_columnNames, getElem?_columnNames, getElem?_withCell_past,
      getElem?_eq_some_cellAt within, ite_self]
  others other unmoved column named := by
    have width := length_withCell inside name
    have bound := lt_length_of_named named
    -- every other place holds a column of the header
    have here : other = place := by
      by_contra elsewhere
      rcases Nat.lt_or_gt_of_ne elsewhere with before | behind
      · apply unmoved other (by omega)
        unfold past
        rw [if_pos before]
      · apply unmoved (other - 1) (by omega)
        unfold past
        rw [if_neg (by omega)]
        omega
    rw [here, getElem?_columnNames, getElem?_withCell] at named
    cases named
    exact unread

theorem follows_widened (header : Csv.Row) {place : Nat} {row row' : Csv.Row}
    (widened : Widened place row row') : Follows header (past place) row row' := by
  intro i _
  unfold cellAt
  cases widened with
  | filled cell =>
    rw [getElem?_withCell_past]
    by_cases before : i < place
    · rw [if_pos before]
      rfl
    · rw [if_neg before]
  | short ends =>
    unfold past
    by_cases before : i < place
    · rw [if_pos before]
    · rw [if_neg before, List.getElem?_eq_none (by omega), List.getElem?_eq_none (by omega)]

theorem rearranged_id (header : Csv.Row) : Rearranged header header id where
  names _ _ := rfl
  others place unmoved _ named := absurd rfl (unmoved place (lt_length_of_named named))

theorem follows_padded (header row : Csv.Row) (n : Nat) :
    Follows header id row (row ++ List.replicate n []) := by
  intro i _
  unfold cellAt
  by_cases inside : i < row.length
  · rw [id, List.getElem?_append_left inside]
  · have beyond : row.length ≤ i := by omega
    rw [id, List.getElem?_append_right beyond, List.getElem?_eq_none beyond,
      List.getElem?_replicate]
    by_cases filled : i - row.length < n
    · rw [if_pos filled]
      rfl
    · rw [if_neg filled]

structure Sheet where
  header : Csv.Row
  rows : List Csv.Row

/-- One change of an export that should not matter: its columns stand in another order, there is a
further column that is not read, with any cells or none, or rows are filled up with empty cells. -/
inductive Rewritten : Sheet → Sheet → Prop where
  | reordered (header : Csv.Row) (rows : List Csv.Row) (order : List Nat)
      (all : order.Perm (List.range header.length)) :
      Rewritten ⟨header, rows⟩ ⟨arranged order header, rows.map (arranged order)⟩
  | widened (header : Csv.Row) (rows rows' : List Csv.Row) (place : Nat) (name : List UInt8)
      (inside : place ≤ header.length)
      (unread : String.ofList (Text.trim (Text.Utf8.decodeLossy name)) ∉ columns)
      (wider : rows.Forall₂ (Widened place) rows') :
      Rewritten ⟨header, rows⟩ ⟨withCell place name header, rows'⟩
  | padded (header : Csv.Row) (rows rows' : List Csv.Row)
      (filled : rows.Forall₂ (fun row row' => ∃ n, row' = row ++ List.replicate n []) rows') :
      Rewritten ⟨header, rows⟩ ⟨header, rows'⟩

theorem Rewritten.rearranged {s s' : Sheet} (rewritten : Rewritten s s') :
    ∃ move, Rearranged s.header s'.header move ∧
      s.rows.Forall₂ (Follows s.header move) s'.rows := by
  cases rewritten with
  | reordered header rows order all =>
    refine ⟨order.idxOf, rearranged_arranged all, ?_⟩
    exact List.forall₂_map_right_iff.mpr
      (List.forall₂_same.mpr fun row _ => follows_arranged all row)
  | widened header rows rows' place name inside unread wider =>
    refine ⟨past place, rearranged_withCell inside unread, wider.imp ?_⟩
    intro row row' widened
    exact follows_widened header widened
  | padded header rows rows' filled =>
    refine ⟨id, rearranged_id header, filled.imp ?_⟩
    intro row row' padded
    obtain ⟨n, same⟩ := padded
    rw [same]
    exact follows_padded header row n

/-- However often an export is rewritten, its columns stay apart and it gives the same records. -/
theorem records_of_rewrites {s s' : Sheet} (rewrites : Relation.ReflTransGen Rewritten s s')
    (once : NamedOnce s.header) (key : Key) :
    NamedOnce s'.header ∧
      recordsOf key (s'.header :: s'.rows) = recordsOf key (s.header :: s.rows) := by
  induction rewrites with
  | refl => exact ⟨once, rfl⟩
  | tail _ rewritten ih =>
    obtain ⟨apart, same⟩ := ih
    obtain ⟨move, rearranged, follow⟩ := rewritten.rearranged
    exact ⟨rearranged.namedOnce apart, (rearranged.recordsOf_eq apart follow key).trans same⟩

/-- The file can be read within the limit, and its text splits into a header and rows. -/
def SplitsInto (limit : Nat) (dir : String) (a : Artifact) (s : Sheet) : Prop :=
  ∃ bytes, readLimited limit (pathIn dir a.name) a.content = .ok bytes ∧
    Csv.rows bytes = s.header :: s.rows

theorem records_of_splitsInto {limit : Nat} {dir : String} {a : Artifact} {s : Sheet}
    (splits : SplitsInto limit dir a s) :
    (Export.ofArtifact limit dir a).records = recordsOf a.found.key (s.header :: s.rows) := by
  obtain ⟨bytes, read, split⟩ := splits
  rw [records_ofArtifact, rowsOf, read, ← split]

/-- A zone-trace export gives one record for every row below its header, in their order and under
the key of the file. Each field is read from the text under the first column of its name, of which
there is just one in every row. So an export whose columns stand in another order, that has further
columns, or whose rows are filled up, however much of it at once, gives the same records as long as
no name that is read stands over two columns. -/
theorem rows_are_read_by_column_names {limit : Nat} {dir : String} {a : Artifact} {s : Sheet}
    (splits : SplitsInto limit dir a s) :
    s.rows.Forall₂ (Gives a.found.key s.header) (Export.ofArtifact limit dir a).records ∧
    (∀ row, ∀ column ∈ columns, ∃! text, StandsUnder s.header row column text) ∧
    (NamedOnce s.header → ∀ (limit' : Nat) (dir' : String) (a' : Artifact) (s' : Sheet),
      Relation.ReflTransGen Rewritten s s' → SplitsInto limit' dir' a' s' →
      a'.found.key = a.found.key →
      (Export.ofArtifact limit' dir' a').records = (Export.ofArtifact limit dir a).records) := by
  refine ⟨?rows, ?texts, ?rewritten⟩
  case rows =>
    rw [records_of_splitsInto splits]
    exact forall₂_gives a.found.key s.header s.rows
  case texts =>
    intro row column consumed
    have own := standsUnder_cell consumed s.header row
    exact ⟨_, own, fun text stands => stands.unique own⟩
  case rewritten =>
    intro once limit' dir' a' s' rewrites splits' sameKey
    obtain ⟨-, same⟩ := records_of_rewrites rewrites once a.found.key
    rw [records_of_splitsInto splits, records_of_splitsInto splits', sameKey, same]

def bytesOf (s : String) : List UInt8 := s.toUTF8.data.toList

def textFile (text : String) : Artifact := ⟨"tracy_q1_p1.csv", .exact ⟨1, 1⟩, .ok text.toUTF8⟩

/-- A zone of which an export says its name, how often it was entered and its mean time. -/
def zone (name : String) (counts : Int64) (mean : Float) : ZoneTraceRecord :=
  ⟨⟨1, 1⟩, name, "", .integer 0, .double 0, .double 0, .integer counts, .double mean, .double 0,
    .double 0, .double 0⟩

/-- The columns stand the other way round, a column of notes is put between them, and the short row
is filled up. -/
theorem rows_are_read_by_column_names_rewritten :
    let s : Sheet :=
      ⟨[bytesOf "name", bytesOf " counts", bytesOf "mean_ns"],
        [[bytesOf "push", bytesOf "7", bytesOf "2.5"], [bytesOf "pop"]]⟩
    let s' : Sheet :=
      ⟨[bytesOf "mean_ns", bytesOf "note", bytesOf " counts", bytesOf "name"],
        [[bytesOf "2.5", bytesOf "slow", bytesOf "7", bytesOf "push"],
          [[], [], [], bytesOf "pop"]]⟩
    let given := textFile "name, counts,mean_ns\npush,7,2.5\npop\n"
    let rewritten := textFile "mean_ns,note, counts,name\n2.5,slow,7,push\n,,,pop\n"
    SplitsInto 64 "r" given s ∧ NamedOnce s.header ∧ Relation.ReflTransGen Rewritten s s' ∧
      SplitsInto 64 "r" rewritten s' ∧ rewritten.found.key = given.found.key ∧
      (Export.ofArtifact 64 "r" given).records = [zone "push" 7 2.5, zone "pop" 0 0] ∧
      (Export.ofArtifact 64 "r" rewritten).records = [zone "push" 7 2.5, zone "pop" 0 0] := by
  intro s s' given rewritten
  have splits : SplitsInto 64 "r" given s := ⟨_, rfl, by decide +kernel⟩
  have splits' : SplitsInto 64 "r" rewritten s' := ⟨_, rfl, by decide +kernel⟩
  have once : NamedOnce s.header := namedOnce_of_nodup (by decide +kernel)
  have turned : Rewritten s ⟨arranged [2, 1, 0] s.header, s.rows.map (arranged [2, 1, 0])⟩ :=
    .reordered _ _ _ (by decide)
  have widened :
      Rewritten ⟨arranged [2, 1, 0] s.header, s.rows.map (arranged [2, 1, 0])⟩ s' :=
    .widened _ _ _ 1 (bytesOf "note") (by decide) (by decide +kernel)
      (.cons (.filled (bytesOf "slow")) (.cons (.filled []) .nil))
  have rewrites := Relation.ReflTransGen.tail (.single turned) widened
  have read : (Export.ofArtifact 64 "r" given).records = [zone "push" 7 2.5, zone "pop" 0 0] := by
    decide +kernel
  obtain ⟨-, -, same⟩ := rows_are_read_by_column_names splits
  have read' := (same once 64 "r" rewritten s' rewrites splits' rfl).trans read
  exact ⟨splits, once, rewrites, splits', rfl, read, read'⟩

end QueueBench.ZoneTrace
