import QueueBench.Proofs.FileReports
import QueueBench.Proofs.UsableDocuments

set_option autoImplicit false

namespace QueueBench

open Artifact (discover fromEntry pathIn)

namespace Family

theorem narrow_opening (family : Family) : ∀ c ∈ family.opening.toList, c.toNat < 0x80 := by
  cases family <;> simp [opening]

theorem narrow_extension (family : Family) : ∀ c ∈ family.extension.toList, c.toNat < 0x80 := by
  cases family <;> simp [extension]

/-- The file name of the family with a text between its beginning and its ending. -/
def around (family : Family) (text : String) : String := family.opening ++ text ++ family.extension

theorem toList_around (family : Family) (text : String) : (family.around text).toList =
    family.opening.toList ++ text.toList ++ family.extension.toList := by
  rw [around, String.toList_append, String.toList_append]

theorem matchesName_around (family : Family) (text : String) :
    family.matchesName (family.around text) = true := by
  have room : family.opening.length + family.extension.length ≤ (family.around text).length := by
    rw [around, String.length_append, String.length_append]
    omega
  unfold matchesName
  rw [toList_around, Bool.and_eq_true, Bool.and_eq_true, decide_eq_true_iff]
  refine ⟨⟨room, ?_⟩, ?_⟩
  · rw [List.append_assoc]
    exact List.isPrefixOf_iff_prefix.mpr ⟨_, rfl⟩
  · exact List.isSuffixOf_iff_suffix.mpr ⟨_, rfl⟩

/-- The bytes of a name that begins and ends as those of the family do. -/
def bytesAround (family : Family) (middle : List UInt8) : List UInt8 :=
  family.opening.toUTF8.data.toList ++ middle ++ family.extension.toUTF8.data.toList

/-- Beginning and ending are letters of one byte, so only what stands between them can keep the
name from being text. -/
theorem decode?_bytesAround (family : Family) (middle : List UInt8) :
    Text.Utf8.decode? (family.bytesAround middle) =
      (Text.Utf8.decode? middle).map fun letters =>
        (family.around (String.ofList letters)).toList := by
  simp only [toList_around, String.toList_ofList]
  rw [bytesAround, Text.Utf8.toUTF8_eq_encode, Text.Utf8.toUTF8_eq_encode]
  exact Text.Utf8.decode?_between family.narrow_opening family.narrow_extension middle

end Family

section Entries

variable {family : Family} {entry : DirEntry} {content : Except PathFault ByteArray}
  (regular : entry.content = some content) {middle : List UInt8}
  (named : entry.name = family.bytesAround middle)
include regular named

theorem fromEntry_of_text {text : String} (spelled : middle = text.toUTF8.data.toList) :
    fromEntry family entry =
      some ⟨family.around text, family.decode (family.around text), content⟩ := by
  have decoded : Text.Utf8.decode? entry.name = some (family.around text).toList := by
    rw [named, Family.decode?_bytesAround, spelled, Text.Utf8.toUTF8_eq_encode,
      Text.Utf8.decode?_encode, Option.map_some, String.ofList_toList]
  exact Artifact.fromEntry_eq_some_iff.mpr
    ⟨regular, ⟨_, decoded, String.ofList_toList.symm⟩, family.matchesName_around text, rfl⟩

theorem fromEntry_of_no_text (unreadable : ∀ text : String, middle ≠ text.toUTF8.data.toList) :
    fromEntry family entry = none := by
  have undecoded : Text.Utf8.decode? entry.name = none := by
    rw [named, Family.decode?_bytesAround, Option.map_eq_none_iff]
    cases decoded : Text.Utf8.decode? middle with
    | none => rfl
    | some letters =>
      have spelled := Text.Utf8.eq_encode_of_decode? decoded
      rw [← String.toList_ofList (l := letters), ← Text.Utf8.toUTF8_eq_encode] at spelled
      exact absurd spelled (unreadable _)
  unfold fromEntry
  rw [regular, undecoded]
  rfl

end Entries

def isWithin (limit : Nat) : Except PathFault ByteArray → Bool
  | .ok bytes => bytes.size ≤ limit
  | .error _ => false

/-- Whether a file can be loaded; a document also has to parse. -/
def canLoad (limit : Nat) (content : Except PathFault ByteArray) : Family → Bool
  | .throughput => (Throughput.document? limit content).isSome
  | .zoneTrace => isWithin limit content
  | .counter => isWithin limit content

theorem isSome_readLimited (limit : Nat) (path : String) (content : Except PathFault ByteArray) :
    (readLimited limit path content).toOption.isSome = isWithin limit content := by
  unfold readLimited isWithin
  cases content with
  | error fault => rfl
  | ok bytes =>
    by_cases fits : bytes.size ≤ limit
    · simp [fits, Except.toOption]
    · simp [fits, Except.toOption]

section Loaders

variable (catalog : Catalog) (limit : Nat) (index : KeyIndex)

def reportsAt (tree : FileTree) (dir : String) : Family → Except Failure (List SourceReport)
  | .throughput => (Throughput.loadDirectoryAt limit tree dir).value.map (·.sources)
  | .zoneTrace => (ZoneTrace.loadAt limit tree dir).value.map (·.sources)
  | .counter => (Counter.loadAt catalog limit index tree dir).value.map (·.sources)

theorem reportsAt_eq {tree : FileTree} {dir : String} {listing : List DirEntry}
    (listed : tree.list dir = .ok listing) (family : Family) :
    reportsAt catalog limit index tree dir family =
      .ok ((discover family listing).map (reportOf catalog limit index dir family)) := by
  cases family with
  | throughput =>
    rw [reportsAt, Throughput.loadDirectoryAt, listAt_eq listed]
    exact congrArg Except.ok (Throughput.sources_loadDirectory limit dir listing)
  | zoneTrace =>
    rw [reportsAt, ZoneTrace.loadAt, listAt_eq listed]
    exact congrArg Except.ok (ZoneTrace.sources_loadDirectory limit dir listing)
  | counter =>
    rw [reportsAt, Counter.loadAt, listAt_eq listed]
    exact congrArg Except.ok (Counter.sources_loadDirectory catalog limit dir index listing)

/-- A report of a file whose name gives no key: the key is taken to be zero, or the file is passed
over. -/
def MalformedStatus (family : Family) (loads : Bool) (status : SourceStatus) : Prop :=
  if family ≠ .counter ∧ loads = true then
    status = .defaultedKey ⟨0, 0⟩ ("file name does not match the " ++ family.label ++ " pattern")
  else status.isSkipped = true

theorem MalformedStatus.of_loaded {family : Family} {loads : Bool} {status : SourceStatus}
    (kind : family ≠ .counter) (loaded : loads = true)
    (known : status = .ofName family .malformed) : MalformedStatus family loads status := by
  unfold MalformedStatus
  rw [if_pos ⟨kind, loaded⟩, known]
  rfl

theorem MalformedStatus.of_skipped {family : Family} {loads : Bool} {status : SourceStatus}
    (excluded : family = .counter ∨ loads = false) (skipped : status.isSkipped = true) :
    MalformedStatus family loads status := by
  unfold MalformedStatus
  rw [if_neg]
  · exact skipped
  · rintro ⟨kind, loaded⟩
    rcases excluded with rfl | rfl
    · exact kind rfl
    · cases loaded

theorem malformedStatus_reportOf (dir : String) (family : Family) (a : Artifact)
    (malformed : a.found = .malformed) :
    MalformedStatus family (canLoad limit a.content family)
      (reportOf catalog limit index dir family a).status := by
  cases family with
  | throughput =>
    have loads := congrArg Option.isSome
      (Throughput.readDocument_toOption limit (pathIn dir a.name) a.content)
    rw [canLoad, reportOf, Throughput.Shard.ofArtifact, ← loads, malformed]
    cases Throughput.readDocument limit (pathIn dir a.name) a.content with
    | error failure => exact MalformedStatus.of_skipped (.inr rfl) rfl
    | ok document => exact MalformedStatus.of_loaded (by decide) rfl rfl
  | zoneTrace =>
    have loads := isSome_readLimited limit (pathIn dir a.name) a.content
    rw [canLoad, reportOf, ZoneTrace.Export.ofArtifact, ← loads, malformed]
    cases readLimited limit (pathIn dir a.name) a.content with
    | error failure => exact MalformedStatus.of_skipped (.inr rfl) rfl
    | ok bytes => exact MalformedStatus.of_loaded (by decide) rfl rfl
  | counter =>
    rw [reportOf, Counter.Snapshot.ofArtifact, malformed]
    exact MalformedStatus.of_skipped (.inl rfl) rfl

theorem filter_reports_eq_singleton {dir : String} {listing : List DirEntry}
    (distinct : (listing.map (·.name)).Nodup) {family : Family} {a : Artifact}
    (discovered : a ∈ discover family listing) :
    ((discover family listing).map (reportOf catalog limit index dir family)).filter
        (fun r => r.path = pathIn dir a.name) = [reportOf catalog limit index dir family a] := by
  have path : ∀ b, (reportOf catalog limit index dir family b).path = pathIn dir b.name := fun b =>
    (reportOf_standsFor catalog limit index dir family b).path
  have alone := filter_eq_singleton (Artifact.paths_nodup distinct dir family) discovered
  rw [List.filter_map]
  simp only [Function.comp_def, path]
  rw [alone, List.map_singleton]

/-- The loader of a family makes exactly one report of every file whose name begins and ends as
those of the family do, if what stands between is text. If it is not, the loader answers as if the
file were not there. -/
theorem text_names_are_reported {tree : FileTree} {dir : String} {listing : List DirEntry}
    (distinct : tree.Distinct) (listed : tree.list dir = .ok listing) (family : Family)
    {entry : DirEntry} (member : entry ∈ listing) {content : Except PathFault ByteArray}
    (regular : entry.content = some content) {middle : List UInt8}
    (named : entry.name = family.bytesAround middle) :
    ∃ reports, reportsAt catalog limit index tree dir family = .ok reports ∧
      (∀ text : String, middle = text.toUTF8.data.toList →
        let name := family.around text
        ∃ report, reports.filter (fun r => r.path = pathIn dir name) = [report] ∧
          report.family = family ∧
          (family.decode name = .malformed →
            MalformedStatus family (canLoad limit content family) report.status)) ∧
      ((∀ text : String, middle ≠ text.toUTF8.data.toList) →
        ∀ before after, listing = before ++ entry :: after →
          ∀ tree' : FileTree, tree'.list dir = .ok (before ++ after) →
            reportsAt catalog limit index tree' dir family = .ok reports) := by
  refine ⟨_, reportsAt_eq catalog limit index listed family, ?text, ?other⟩
  case text =>
    intro text spelled name
    have found := fromEntry_of_text regular named spelled
    have discovered := Artifact.mem_discover.mpr ⟨entry, member, found⟩
    refine ⟨_, filter_reports_eq_singleton catalog limit index (distinct.list listed) discovered,
      (reportOf_standsFor catalog limit index dir family _).family, ?_⟩
    intro malformed
    exact malformedStatus_reportOf catalog limit index dir family ⟨name, _, content⟩ malformed
  case other =>
    intro unreadable before after split tree' listed'
    have passed := fromEntry_of_no_text regular named unreadable
    rw [reportsAt_eq catalog limit index listed' family, split,
      Artifact.discover_remove passed before after]

end Loaders

open Counter (renamed textEntry)

/-- A name with a letter of two bytes, which gives no key. -/
theorem text_names_are_reported_accent :
    let entry := textEntry "benchmark_results_qé.json" renamed
    let tree := FileTree.ofTexts [("benchmark_results_qé.json", renamed)]
    (tree.Distinct ∧ tree.list "r" = .ok [entry]) ∧
    (entry.content = some (.ok renamed.toUTF8) ∧
      entry.name = Family.throughput.bytesAround "é".toUTF8.data.toList) ∧
    ∃ reports, reportsAt Catalog.standard 1000 ∅ tree "r" .throughput = .ok reports ∧
      ∃ report, reports.filter (fun r => r.path = "r/benchmark_results_qé.json") = [report] ∧
        report.status =
          .defaultedKey ⟨0, 0⟩ "file name does not match the throughput pattern" := by
  intro entry tree
  have distinct : tree.Distinct := FileTree.distinct_ofTexts _
  have listed : tree.list "r" = .ok [entry] := by rfl
  have named : entry.name = Family.throughput.bytesAround "é".toUTF8.data.toList := by
    decide +kernel
  obtain ⟨reports, loaded, reported, -⟩ := text_names_are_reported Catalog.standard 1000 ∅ distinct
    listed .throughput List.mem_cons_self rfl named
  obtain ⟨report, alone, -, status⟩ := reported "é" rfl
  have path : pathIn "r" (Family.throughput.around "é") = "r/benchmark_results_qé.json" := by
    decide +kernel
  have parsed : canLoad 1000 (.ok renamed.toUTF8) .throughput = true := by rfl
  rw [path] at alone
  refine ⟨⟨distinct, listed⟩, ⟨rfl, named⟩, reports, loaded, report, alone, ?_⟩
  have malformed := status (by decide +kernel)
  rw [MalformedStatus, if_pos ⟨by decide, parsed⟩] at malformed
  exact malformed

/-- A file that could be loaded and is named as a throughput document, but for one byte that is no
text: there is no report. -/
theorem unreadable_name_leaves_no_report :
    let name := Family.throughput.bytesAround [0xFF]
    let tree := (FileTree.empty []).addFile ["r".toUTF8.data.toList, name] renamed.toUTF8
    (tree.Distinct ∧ tree.list "r" = .ok [⟨name, some (.ok renamed.toUTF8)⟩]) ∧
    canLoad 1000 (.ok renamed.toUTF8) .throughput = true ∧
    reportsAt Catalog.standard 1000 ∅ tree "r" .throughput = .ok [] := by
  intro name tree
  have listed : tree.list "r" = .ok [⟨name, some (.ok renamed.toUTF8)⟩] := by rfl
  have nothing : discover .throughput [⟨name, some (.ok renamed.toUTF8)⟩] = [] := by
    apply Artifact.discover_eq
    · rfl
    · exact List.Pairwise.nil
  refine ⟨⟨(FileTree.distinct_empty []).addNode _ _, listed⟩, by rfl, ?_⟩
  rw [reportsAt_eq Catalog.standard 1000 ∅ listed, nothing]
  rfl

end QueueBench
