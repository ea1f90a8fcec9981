import QueueBench.Proofs.EnumerationOrder
import QueueBench.Proofs.FailingRuns
import QueueBench.Proofs.ReportedNames

set_option autoImplicit false

namespace QueueBench

open Artifact (discover fromEntry pathIn)
open Throughput (contribution)

/-- Two listings, each in its own order, that differ in the content of one file. -/
structure DifferAt (name : List UInt8) (content content' : Except PathFault ByteArray)
    (listing listing' : List DirEntry) : Prop where
  distinct : (listing.map (·.name)).Nodup
  others : ∃ others, listing.Perm (⟨name, some content⟩ :: others) ∧
    listing'.Perm (⟨name, some content'⟩ :: others)

/-- What a name in a directory tells about the key; a name that is not UTF-8 tells nothing. -/
def Family.keyOfName (family : Family) (name : List UInt8) : NameKey :=
  match Text.Utf8.decode? name with
  | some letters => family.decode (String.ofList letters)
  | none => .malformed

def asArtifact (family : Family) (name : List UInt8) (content : Except PathFault ByteArray) :
    List Artifact :=
  (fromEntry family ⟨name, some content⟩).toList

section Names

variable {name : List UInt8} {content content' : Except PathFault ByteArray}
  {listing listing' : List DirEntry}

theorem found_of_mem_asArtifact {family : Family} {a : Artifact}
    (member : a ∈ asArtifact family name content) : a.found = family.keyOfName name := by
  obtain ⟨-, ⟨letters, decoded, named⟩, -, found⟩ :=
    Artifact.fromEntry_eq_some_iff.mp (Option.mem_toList.mp member)
  unfold Family.keyOfName
  dsimp only at decoded
  rw [decoded, found, named]

/-- Whether a file is an artifact does not depend on its content. -/
theorem asArtifact_cases (family : Family) (name : List UInt8) :
    (∀ content, asArtifact family name content = []) ∨
      ∃ text found, ∀ content, asArtifact family name content = [⟨text, found, content⟩] := by
  unfold asArtifact fromEntry
  cases decoded : Text.Utf8.decode? name with
  | none =>
    refine .inl fun content => ?_
    simp only [decoded, Option.bind_eq_bind, Option.bind_some, Option.bind_none, Option.toList_none]
  | some letters =>
    by_cases matched : family.matchesName (String.ofList letters) = true
    · refine .inr ⟨String.ofList letters, family.decode (String.ofList letters), fun content => ?_⟩
      simp only [decoded, Option.bind_eq_bind, Option.bind_some, if_pos matched]
      rfl
    · refine .inl fun content => ?_
      simp only [decoded, Option.bind_eq_bind, Option.bind_some, if_neg matched,
        Option.toList_none]

theorem asArtifact_paths (family : Family) (name : List UInt8)
    (content content' : Except PathFault ByteArray) (dir : String) :
    (asArtifact family name content').map (fun a => pathIn dir a.name) =
      (asArtifact family name content).map fun a => pathIn dir a.name := by
  rcases asArtifact_cases family name with absent | ⟨text, found, only⟩
  · rw [absent, absent]
  · rw [only, only]
    rfl

/-- A name that begins and ends as those of one family do is of no other family. -/
theorem fromEntry_of_bytesAround {f g : Family} (apart : f ≠ g) {entry : DirEntry}
    {middle : List UInt8} (named : entry.name = f.bytesAround middle) :
    fromEntry g entry = none := by
  cases found : fromEntry g entry with
  | none => rfl
  | some b =>
    obtain ⟨held, ⟨letters, decoded, -⟩, -, -⟩ := Artifact.fromEntry_eq_some_iff.mp found
    rw [named, Family.decode?_bytesAround, Option.map_eq_some_iff] at decoded
    obtain ⟨inner, spelled, -⟩ := decoded
    have text : middle = (String.ofList inner).toUTF8.data.toList := by
      rw [Text.Utf8.toUTF8_eq_encode, String.toList_ofList]
      exact Text.Utf8.eq_encode_of_decode? spelled
    exact absurd (Artifact.family_unique (fromEntry_of_text held named text) found) apart

theorem DifferAt.distinct' (differ : DifferAt name content content' listing listing') :
    (listing'.map (·.name)).Nodup := by
  obtain ⟨distinct, others, here, there⟩ := differ
  exact ((there.map (·.name)).trans (here.map (·.name)).symm).nodup_iff.mpr distinct

/-- Neither family nor order sees the content, so the file keeps its place. -/
theorem DifferAt.discover (differ : DifferAt name content content' listing listing')
    (family : Family) :
    ∃ before after,
      Artifact.discover family listing = before ++ asArtifact family name content ++ after ∧
      Artifact.discover family listing' = before ++ asArtifact family name content' ++ after := by
  have distinct' := differ.distinct'
  obtain ⟨distinct, others, here, there⟩ := differ
  have found := (Artifact.discover_perm family listing).trans (here.filterMap (fromEntry family))
  have found' := there.filterMap (fromEntry family)
  rcases asArtifact_cases family name with absent | ⟨text, key, only⟩
  · have none := fun content => Option.toList_eq_nil_iff.mp (absent content)
    refine ⟨Artifact.discover family listing, [], ?_, ?_⟩
    · rw [absent, List.append_nil, List.append_nil]
    · rw [absent, List.append_nil, List.append_nil]
      rw [List.filterMap_cons_none (none _)] at found found'
      apply Artifact.discover_eq_of_inOrder distinct' (found.trans found'.symm)
      exact Artifact.discover_inOrder family listing
  · have some := fun content => Option.toList_eq_singleton_iff.mp (only content)
    rw [List.filterMap_cons_some (some _)] at found found'
    obtain ⟨before, after, whole⟩ := List.append_of_mem (found.mem_iff.mpr List.mem_cons_self)
    have ordered := Artifact.discover_inOrder family listing
    rw [whole] at found ordered
    refine ⟨before, after, ?_, ?_⟩
    · rw [only, whole, List.append_assoc]
      rfl
    · rw [only, List.append_assoc]
      -- the order looks at keys and names, so the file may stand where it stood
      have rest := (List.perm_middle.symm.trans found).cons_inv
      apply Artifact.discover_eq_of_inOrder distinct'
      · exact (List.perm_middle.trans (rest.cons _)).trans found'.symm
      · rw [List.pairwise_append, List.pairwise_cons] at ordered
        obtain ⟨front, ⟨own, back⟩, across⟩ := ordered
        refine List.pairwise_append.mpr ⟨front, List.pairwise_cons.mpr ⟨own, back⟩, ?_⟩
        intro a earlier b later
        rcases List.mem_cons.mp later with rfl | later
        · have next : Artifact.InOrder a ⟨text, key, content⟩ :=
            across a earlier _ List.mem_cons_self
          exact next
        · exact across a earlier b (List.mem_cons_of_mem _ later)

/-- No other file of the family has the path of one that differs. -/
theorem pathIn_not_mem_own (distinct : (listing.map (·.name)).Nodup) (dir : String)
    {family : Family} {before own after : List Artifact}
    (whole : Artifact.discover family listing = before ++ own ++ after) {a : Artifact}
    (member : a ∈ before ++ after) :
    pathIn dir a.name ∉ own.map fun b => pathIn dir b.name := by
  intro shared
  obtain ⟨b, inside, same⟩ := List.mem_map.mp shared
  have once := Artifact.paths_nodup distinct dir family
  rw [whole, List.append_assoc] at once
  have apart := (List.perm_append_comm_assoc before own after).map fun a => pathIn dir a.name
  rw [apart.nodup_iff, List.map_append, List.nodup_append'] at once
  have here : pathIn dir a.name ∈ (before ++ after).map fun a => pathIn dir a.name :=
    List.mem_map_of_mem member
  exact once.2.2 shared here

theorem DifferAt.discover_other {middle : List UInt8} {f g : Family}
    (differ : DifferAt (f.bytesAround middle) content content' listing listing') (apart : f ≠ g) :
    Artifact.discover g listing' = Artifact.discover g listing := by
  obtain ⟨before, after, here, there⟩ := differ.discover g
  have absent (held : Except PathFault ByteArray) :
      fromEntry g ⟨f.bytesAround middle, some held⟩ = none := fromEntry_of_bytesAround apart rfl
  unfold asArtifact at here there
  rw [absent] at here there
  rw [there, here]

/-- Of other keys than that of the file's name the same document decides. -/
theorem DifferAt.deciding? (differ : DifferAt name content content' listing listing')
    {fileKey : Key} (other : Family.throughput.keyOfName name ≠ .exact fileKey) :
    QueueBench.deciding? listing' fileKey = QueueBench.deciding? listing fileKey := by
  obtain ⟨before, after, here, there⟩ := differ.discover .throughput
  have silent : ∀ content, (asArtifact .throughput name content).find?
      (fun a => a.found = .exact fileKey) = none := by
    intro content
    apply List.find?_eq_none.mpr
    intro a member
    rw [found_of_mem_asArtifact member, decide_eq_true_iff]
    exact other
  unfold QueueBench.deciding?
  rw [here, there, List.find?_append, List.find?_append, List.find?_append, List.find?_append,
    silent, silent]

end Names

namespace Counter

variable {index index' : KeyIndex}

theorem resolve_congr {fileKey : Key} (same : index.get? fileKey = index'.get? fileKey)
    (path : String) : resolve path fileKey index = resolve path fileKey index' := by
  unfold resolve
  rw [same]

/-- A dump asks the index for the key of its own name alone. -/
theorem ofArtifact_congr (catalog : Catalog) (limit : Nat) (dir : String) {a : Artifact}
    (same : ∀ fileKey, a.found = .exact fileKey → index.get? fileKey = index'.get? fileKey) :
    Snapshot.ofArtifact catalog limit dir index a =
      Snapshot.ofArtifact catalog limit dir index' a := by
  unfold Snapshot.ofArtifact
  cases found : a.found with
  | exact fileKey =>
    dsimp only
    rw [resolve_congr (same fileKey found)]
  | producerDefaulted key => rfl
  | malformed => rfl

end Counter

namespace Dataset

section Differ

variable {settings : Settings} {middle : List UInt8}
  {content content' : Except PathFault ByteArray} {listing listing' : List DirEntry}
  (differ : DifferAt (Family.throughput.bytesAround middle) content content' listing listing')
include differ

theorem lookedAt_other {family : Family} (apart : .throughput ≠ family) :
    lookedAt settings listing' family = lookedAt settings listing family := by
  cases family with
  | throughput => exact absurd rfl apart
  | zoneTrace => rw [lookedAt, lookedAt, differ.discover_other apart]
  | counter => rw [lookedAt, lookedAt, differ.discover_other apart]

/-- Only for the key of its own name does the file have a say in the index. -/
theorem index_get?_differ {fileKey : Key}
    (other : Family.throughput.keyOfName (Family.throughput.bytesAround middle) ≠ .exact fileKey)
    (limit : Nat) (dir : String) :
    (Throughput.loadDirectory limit dir listing).value.index.get? fileKey =
      (Throughput.loadDirectory limit dir listing').value.index.get? fileKey := by
  rw [get?_index, get?_index, differ.deciding? other]

/-- A dump that asks for another key than that of the file's name has the same report in both
runs. -/
theorem reportOf_differ {a : Artifact}
    (other : ∀ fileKey, a.found = .exact fileKey →
      Family.throughput.keyOfName (Family.throughput.bytesAround middle) ≠ .exact fileKey)
    (catalog : Catalog) (limit : Nat) (dir : String) :
    reportOf catalog limit (Throughput.loadDirectory limit dir listing').value.index dir .counter
        a =
      reportOf catalog limit (Throughput.loadDirectory limit dir listing).value.index dir .counter
        a := by
  unfold reportOf
  dsimp only
  rw [Counter.ofArtifact_congr catalog limit dir fun fileKey named =>
    index_get?_differ differ (other fileKey named) limit dir]

end Differ

/-- What two runs have in common whose directories differ in the content of one throughput file:
all of the zone traces, the dumps up to the keys of those that share the key of the file's name, and
the records and reports of all other throughput files. -/
structure Agree (settings : Settings) (dir : String) (listing : List DirEntry)
    (name : List UInt8) (content content' : Except PathFault ByteArray)
    (dataset dataset' : Dataset) : Prop where
  zoneTraces : dataset'.zoneTraces = dataset.zoneTraces
  exports : dataset'.reportsOn .zoneTrace = dataset.reportsOn .zoneTrace
  metrics : ∀ d, d = dataset ∨ d = dataset' →
    d.counters.map (·.metrics) = (dumpsRead settings dir listing).map fun dump =>
      Dump.extractBytes settings.metrics dump.bytes
  counters : ∀ (place : Nat) (dump : Counter.NamedDump),
    (dumpsRead settings dir listing)[place]? = some dump →
      Family.throughput.keyOfName name ≠ .exact dump.fileKey →
        dataset'.counters[place]? = dataset.counters[place]?
  dumpPaths : ∀ d, d = dataset ∨ d = dataset' →
    (d.reportsOn .counter).map (·.path) =
      (lookedAt settings listing .counter).map fun a => pathIn dir a.name
  dumps : ∀ (place : Nat) (a : Artifact),
    (lookedAt settings listing .counter)[place]? = some a →
      (∀ fileKey, a.found = .exact fileKey →
        Family.throughput.keyOfName name ≠ .exact fileKey) →
          (dataset'.reportsOn .counter)[place]? = (dataset.reportsOn .counter)[place]?
  throughput : ∃ front back,
    dataset.throughput = front ++ (asArtifact .throughput name content).flatMap
      (contribution settings.maxFileBytes) ++ back ∧
    dataset'.throughput = front ++ (asArtifact .throughput name content').flatMap
      (contribution settings.maxFileBytes) ++ back
  documents : ∃ front own own' back,
    dataset.reportsOn .throughput = front ++ own ++ back ∧
    dataset'.reportsOn .throughput = front ++ own' ++ back ∧
    own.map (·.path) = (asArtifact .throughput name content).map (fun a => pathIn dir a.name) ∧
    own'.map (·.path) = own.map (·.path) ∧
    ∀ report ∈ front ++ back, report.path ∉ own.map (·.path)

theorem agree_of_madeFrom {settings : Settings} {dir : String} {middle : List UInt8}
    {content content' : Except PathFault ByteArray} {listing listing' : List DirEntry}
    {dataset dataset' : Dataset}
    (differ : DifferAt (Family.throughput.bytesAround middle) content content' listing listing')
    (made : MadeFrom settings dir listing
      (Throughput.loadDirectory settings.maxFileBytes dir listing).value.index dataset)
    (made' : MadeFrom settings dir listing'
      (Throughput.loadDirectory settings.maxFileBytes dir listing').value.index dataset') :
    Agree settings dir listing (Family.throughput.bytesAround middle) content content' dataset
      dataset' := by
  obtain ⟨before, after, here, there⟩ := differ.discover .throughput
  have traces : lookedAt settings listing' .zoneTrace = lookedAt settings listing .zoneTrace :=
    lookedAt_other differ (by decide)
  have dumps : lookedAt settings listing' .counter = lookedAt settings listing .counter :=
    lookedAt_other differ (by decide)
  have read : dumpsRead settings dir listing' = dumpsRead settings dir listing := by
    rw [dumpsRead, dumpsRead, dumps]
  refine
    { zoneTraces := ?zoneTraces, exports := ?exports, metrics := ?metrics, counters := ?counters,
      dumpPaths := ?dumpPaths, dumps := ?dumps, throughput := ?throughput,
      documents := ?documents }
  case zoneTraces => rw [made.zoneTraces, made'.zoneTraces, traces]
  case exports =>
    rw [made.reportsOn, made'.reportsOn, traces]
    rfl
  case metrics =>
    rintro d (rfl | rfl)
    · rw [made.counters, List.map_map]
      rfl
    · rw [made'.counters, read, List.map_map]
      rfl
  case counters =>
    intro place dump at_ other
    rw [made.counters, made'.counters, read, List.getElem?_map, List.getElem?_map, at_,
      Option.map_some, Option.map_some, Counter.resolve_congr (index_get?_differ differ other _ _)]
  case dumpPaths =>
    rintro d (rfl | rfl)
    · rw [made.reportsOn, map_path_reportOf]
    · rw [made'.reportsOn, dumps, map_path_reportOf]
  case dumps =>
    intro place a at_ other
    rw [made.reportsOn, made'.reportsOn, dumps, List.getElem?_map, List.getElem?_map, at_,
      Option.map_some, Option.map_some, reportOf_differ differ other]
  case throughput =>
    refine ⟨before.flatMap (contribution settings.maxFileBytes),
      after.flatMap (contribution settings.maxFileBytes), ?_, ?_⟩
    · rw [made.throughput, lookedAt, here, List.flatMap_append, List.flatMap_append]
    · rw [made'.throughput, lookedAt, there, List.flatMap_append, List.flatMap_append]
  case documents =>
    let report := fun a => (Throughput.Shard.ofArtifact settings.maxFileBytes dir a).report
    have path (files : List Artifact) :
        (files.map report).map (·.path) = files.map fun a => pathIn dir a.name :=
      map_path_reportOf settings.metrics settings.maxFileBytes ∅ dir .throughput files
    refine ⟨before.map report,
      (asArtifact .throughput (Family.throughput.bytesAround middle) content).map report,
      (asArtifact .throughput (Family.throughput.bytesAround middle) content').map report,
      after.map report, ?_, ?_, path _, ?_, ?_⟩
    · rw [made.reportsOn, lookedAt, here, List.map_append, List.map_append]
      rfl
    · rw [made'.reportsOn, lookedAt, there, List.map_append, List.map_append]
      rfl
    · rw [path, path, asArtifact_paths]
    · intro other member
      rw [← List.map_append] at member
      obtain ⟨a, inside, rfl⟩ := List.mem_map.mp member
      have own : (report a).path = pathIn dir a.name :=
        (Throughput.report_standsFor settings.maxFileBytes dir a).path
      rw [path, own]
      exact pathIn_not_mem_own differ.distinct dir here inside

/-- Two runs that succeed over directories which differ in the content of one throughput file agree
on all that the file has no part in, whatever becomes of the file in either run. -/
theorem one_document_is_isolated {settings : Settings} {tree tree' : FileTree} {dir : String}
    {middle : List UInt8} {content content' : Except PathFault ByteArray}
    {listing listing' : List DirEntry} {dataset dataset' : Dataset}
    (listed : tree.list dir = .ok listing) (listed' : tree'.list dir = .ok listing')
    (differ : DifferAt (Family.throughput.bytesAround middle) content content' listing listing')
    (succeeds : (ofPath settings tree dir).value = .ok dataset)
    (succeeds' : (ofPath settings tree' dir).value = .ok dataset') :
    Agree settings dir listing (Family.throughput.bytesAround middle) content content' dataset
      dataset' := by
  rw [ofPath_eq_ofDirectory settings listed] at succeeds
  rw [ofPath_eq_ofDirectory settings listed'] at succeeds'
  exact agree_of_madeFrom differ (madeFrom_of_ofDirectory succeeds)
    (madeFrom_of_ofDirectory succeeds')

open Counter (renamed truncated textEntries) in
/-- A document that breaks off in the second run, where the directory is listed in another order. -/
theorem one_document_is_isolated_truncated :
    let others := [("benchmark_results_q3_p4.json", renamed), ("perf_q1_p2.txt", ""),
      ("perf_q3_p4.txt", "")]
    let files :=
      ("benchmark_results_q1_p2.json", renamed) :: ("tracy_q1_p2.csv", "name\na") :: others
    let files' :=
      ("tracy_q1_p2.csv", "name\na") :: ("benchmark_results_q1_p2.json", truncated) :: others
    let tree := FileTree.ofTexts files
    let tree' := FileTree.ofTexts files'
    let name := Family.throughput.bytesAround "1_p2".toUTF8.data.toList
    (tree.list "r" = .ok (textEntries files) ∧ tree'.list "r" = .ok (textEntries files')) ∧
    DifferAt name (.ok renamed.toUTF8) (.ok truncated.toUTF8) (textEntries files)
      (textEntries files') ∧
    ∃ dataset dataset', (ofPath .standard tree "r").value = .ok dataset ∧
      (ofPath .standard tree' "r").value = .ok dataset' ∧
      Agree .standard "r" (textEntries files) name (.ok renamed.toUTF8) (.ok truncated.toUTF8)
        dataset dataset' := by
  intro others files files' tree tree' name
  have listed : tree.list "r" = .ok (textEntries files) := by rfl
  have listed' : tree'.list "r" = .ok (textEntries files') := by rfl
  have spelled : "benchmark_results_q1_p2.json".toUTF8.data.toList = name := by decide +kernel
  have differ : DifferAt name (.ok renamed.toUTF8) (.ok truncated.toUTF8) (textEntries files)
      (textEntries files') := by
    rw [← spelled]
    exact ⟨by decide +kernel, _, List.Perm.refl _, List.Perm.swap _ _ _⟩
  have documents : discover .throughput (textEntries files) =
      [⟨"benchmark_results_q1_p2.json", .exact ⟨1, 2⟩, .ok renamed.toUTF8⟩,
        ⟨"benchmark_results_q3_p4.json", .exact ⟨3, 4⟩, .ok renamed.toUTF8⟩] := by
    apply Artifact.discover_eq
    · rfl
    · decide +kernel
  have documents' : discover .throughput (textEntries files') =
      [⟨"benchmark_results_q1_p2.json", .exact ⟨1, 2⟩, .ok truncated.toUTF8⟩,
        ⟨"benchmark_results_q3_p4.json", .exact ⟨3, 4⟩, .ok renamed.toUTF8⟩] := by
    apply Artifact.discover_eq
    · rfl
    · decide +kernel
  have merged : mergedRecords .standard (textEntries files) =
      [⟨⟨5, 6⟩, 7, ∅⟩, ⟨⟨5, 6⟩, 7, ∅⟩] := by
    rw [mergedRecords, documents]
    rfl
  have merged' : mergedRecords .standard (textEntries files') = [⟨⟨5, 6⟩, 7, ∅⟩] := by
    rw [mergedRecords, documents']
    rfl
  have window : AggregationRule.isValidWindow Settings.standard.aggregation.window = true := by
    decide
  obtain ⟨dataset, succeeds⟩ := exists_dataset_of_lastWriteWins window rfl
    (by rw [merged]; exact List.cons_ne_nil _ _) "r"
  obtain ⟨dataset', succeeds'⟩ := exists_dataset_of_lastWriteWins window rfl
    (by rw [merged']; exact List.cons_ne_nil _ _) "r"
  rw [← ofPath_eq_ofDirectory .standard listed] at succeeds
  rw [← ofPath_eq_ofDirectory .standard listed'] at succeeds'
  exact ⟨⟨listed, listed'⟩, differ, dataset, dataset', succeeds, succeeds',
    one_document_is_isolated listed listed' differ succeeds succeeds'⟩

end Dataset

end QueueBench
