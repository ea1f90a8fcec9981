import QueueBench.Proofs.DumpKeys

set_option autoImplicit false

namespace QueueBench.Counter

open Throughput (contribution readDocument)

/-- The throughput files of a directory whose names give both coordinates of a key. -/
def documentsFor (listing : List DirEntry) (fileKey : Key) : List Artifact :=
  (Artifact.discover .throughput listing).filter fun a => a.found = .exact fileKey

/-- The key embedded in a usable file: one that can be read within the limit, parses and has a first
record. -/
def embedded? (limit : Nat) (a : Artifact) : Option Key :=
  (contribution limit a).head?.map (·.key)

theorem embedded?_eq (limit : Nat) (dir : String) (a : Artifact) :
    embedded? limit a =
      match readDocument limit (Artifact.pathIn dir a.name) a.content with
      | .error _ => none
      | .ok read => read.records.head?.map (·.key) := by
  rw [embedded?, ← Throughput.records_ofArtifact limit dir]
  unfold Throughput.Shard.ofArtifact
  dsimp only
  cases readDocument limit (Artifact.pathIn dir a.name) a.content <;> rfl

/-- Why a file without an embedded key is of no use. -/
def troubleOf (limit : Nat) (dir : String) (a : Artifact) : String :=
  match readDocument limit (Artifact.pathIn dir a.name) a.content with
  | .error failure => failure.message
  | .ok _ => "document carries no benchmark results"

/-- The status of a dump whose deciding document is of no use. -/
def keptBeside (path : String) (fileKey : Key) (reason : String) : SourceStatus :=
  kept path fileKey ("throughput document for " ++ fileKey.label ++ " unusable: " ++ reason)

theorem keyAndStatus_some (limit : Nat) (dir path : String) (fileKey : Key) (a : Artifact) :
    keyAndStatus limit dir path fileKey (some a) =
      ((embedded? limit a).map fun key => (key, SourceStatus.resolved key)).getD
        (fileKey, keptBeside path fileKey (troubleOf limit dir a)) := by
  rw [embedded?_eq limit dir]
  unfold keyAndStatus troubleOf
  dsimp only
  cases readDocument limit (Artifact.pathIn dir a.name) a.content with
  | error failure => rfl
  | ok document =>
    dsimp only
    cases document.records with
    | nil => rfl
    | cons first rest => rfl

theorem exists_deciding {listing : List DirEntry} {fileKey : Key} {u : Artifact}
    (named : u ∈ documentsFor listing fileKey) :
    ∃ a ∈ documentsFor listing fileKey, deciding? listing fileKey = some a ∧
      ∀ b ∈ documentsFor listing fileKey, a.name ≤ b.name := by
  obtain ⟨listed, matched⟩ := List.mem_filter.mp named
  cases decides : deciding? listing fileKey with
  | none => exact absurd (of_decide_eq_true matched) (deciding?_eq_none_iff.mp decides u listed)
  | some a =>
    obtain ⟨found, first, least⟩ := deciding?_first decides
    refine ⟨a, List.mem_filter.mpr ⟨found, decide_eq_true first⟩, rfl, ?_⟩
    intro b member
    obtain ⟨listed, matched⟩ := List.mem_filter.mp member
    exact least b listed (of_decide_eq_true matched)

/-- The record and the report at a place among those of the dumps that were read. -/
def GivesAt (catalog : Catalog) (limit dumpLimit : Nat) (dir : String) (listing : List DirEntry)
    (place : Nat) (dump : NamedDump) (key : Key) (status : SourceStatus) : Prop :=
  let loaded := (loadAfterDocuments catalog limit dumpLimit dir listing).value
  loaded.records[place]? = some ⟨key, Dump.extractBytes catalog dump.bytes⟩ ∧
    (loaded.sources.filter (!·.status.isSkipped))[place]? =
      some ⟨dump.path, .counter, status, 1⟩

theorem givesAt_outcome (catalog : Catalog) (limit : Nat) {dumpLimit : Nat} {dir : String}
    {listing : List DirEntry} {place : Nat} {dump : NamedDump}
    (read : ((Artifact.discover .counter listing).filterMap (named? dumpLimit dir))[place]? =
      some dump) :
    GivesAt catalog limit dumpLimit dir listing place dump (outcome limit dir listing dump).1
      (outcome limit dir listing dump).2 := by
  unfold GivesAt
  dsimp only
  rw [records_of_outcome, sources_of_outcome, List.getElem?_map, List.getElem?_map, read]
  exact ⟨rfl, rfl⟩

def textEntry (name text : String) : DirEntry := ⟨name.toUTF8.data.toList, some (.ok text.toUTF8)⟩

def textEntries (files : List (String × String)) : List DirEntry :=
  files.map fun file => textEntry file.1 file.2

/-- A directory with a dump and two throughput files whose names give the dump's key. -/
def rivals (first second : String) : List DirEntry :=
  [textEntry "benchmark_results_q01_p2.json" first, textEntry "benchmark_results_q1_p2.json" second,
    textEntry "perf_q1_p2.txt" ""]

/-- A document with one record, whose key is not that of the file name. -/
def renamed : String :=
  "\x7b\"benchmarkResults\":\x7b\"queueSize\":5,\"producerCount\":6,\"successfulPops\":7\x7d\x7d"

def truncated : String := "\x7b"

def rival (name text : String) : Artifact := ⟨name, .exact ⟨1, 2⟩, .ok text.toUTF8⟩

theorem fromEntry_textEntry {family : Family} {name : String} {found : NameKey} (text : String)
    (letters : Text.Utf8.decode? name.toUTF8.data.toList = some name.toList)
    (matched : family.matchesName name = true) (decoded : found = family.decode name) :
    Artifact.fromEntry family (textEntry name text) = some ⟨name, found, .ok text.toUTF8⟩ :=
  Artifact.fromEntry_eq_some_iff.mpr
    ⟨rfl, ⟨name.toList, letters, String.ofList_toList.symm⟩, matched, decoded⟩

theorem fromEntry_rival (name text : String)
    (letters : Text.Utf8.decode? name.toUTF8.data.toList = some name.toList)
    (matched : Family.throughput.matchesName name = true)
    (decoded : .exact ⟨1, 2⟩ = Family.throughput.decode name) :
    Artifact.fromEntry .throughput (textEntry name text) = some (rival name text) ∧
      Artifact.fromEntry .counter (textEntry name text) = none := by
  have found := fromEntry_textEntry text letters matched decoded
  exact ⟨found, Artifact.fromEntry_eq_none_of_other found (by decide)⟩

theorem discover_rival (text : String) :
    Artifact.discover .throughput (textEntries [("benchmark_results_q1_p2.json", text)]) =
      [rival "benchmark_results_q1_p2.json" text] := by
  have found := (fromEntry_rival "benchmark_results_q1_p2.json" text (by decide +kernel)
    (by decide +kernel) (by decide +kernel)).1
  apply Artifact.discover_eq
  · rw [textEntries, List.map_singleton, List.filterMap_cons_some found, List.filterMap_nil]
  · exact List.pairwise_singleton _ _

theorem rivals_found (first second : String) :
    (rivals first second).filterMap (Artifact.fromEntry .throughput) =
        [rival "benchmark_results_q01_p2.json" first,
          rival "benchmark_results_q1_p2.json" second] ∧
      (rivals first second).filterMap (Artifact.fromEntry .counter) =
        [⟨"perf_q1_p2.txt", .exact ⟨1, 2⟩, .ok "".toUTF8⟩] := by
  have one := fromEntry_rival "benchmark_results_q01_p2.json" first (by decide +kernel)
    (by decide +kernel) (by decide +kernel)
  have two := fromEntry_rival "benchmark_results_q1_p2.json" second (by decide +kernel)
    (by decide +kernel) (by decide +kernel)
  have dump : Artifact.fromEntry .counter (textEntry "perf_q1_p2.txt" "") =
      some ⟨"perf_q1_p2.txt", .exact ⟨1, 2⟩, .ok "".toUTF8⟩ := by rfl
  have other := Artifact.fromEntry_eq_none_of_other dump (show Family.counter ≠ .throughput by decide)
  constructor
  · rw [rivals, List.filterMap_cons_some one.1, List.filterMap_cons_some two.1,
      List.filterMap_cons_none other, List.filterMap_nil]
  · rw [rivals, List.filterMap_cons_none one.2, List.filterMap_cons_none two.2,
      List.filterMap_cons_some dump, List.filterMap_nil]

theorem discover_rivals (first second : String) :
    Artifact.discover .throughput (rivals first second) =
      [rival "benchmark_results_q01_p2.json" first,
        rival "benchmark_results_q1_p2.json" second] := by
  apply Artifact.discover_eq (rivals_found first second).1
  have names : "benchmark_results_q01_p2.json" ≤ "benchmark_results_q1_p2.json" := by decide +kernel
  exact List.pairwise_pair.mpr
    ((Artifact.precedes_iff _ _).mpr (.inr ⟨rfl, .inr ⟨rfl, names⟩⟩))

theorem documentsFor_rivals (first second : String) :
    documentsFor (rivals first second) ⟨1, 2⟩ =
      [rival "benchmark_results_q01_p2.json" first,
        rival "benchmark_results_q1_p2.json" second] := by
  rw [documentsFor, discover_rivals]
  rfl

theorem deciding?_rivals (first second : String) :
    deciding? (rivals first second) ⟨1, 2⟩ =
      some (rival "benchmark_results_q01_p2.json" first) := by
  rw [deciding?, discover_rivals]
  rfl

theorem dump_of_rivals (first second : String) :
    ((Artifact.discover .counter (rivals first second)).filterMap (named? 1000 "r"))[0]? =
      some ⟨"r/perf_q1_p2.txt", ⟨1, 2⟩, []⟩ := by
  rw [Artifact.discover_eq (rivals_found first second).2 (List.pairwise_singleton _ _)]
  rfl

theorem embedded?_renamed (name : String) : embedded? 1000 (rival name renamed) = some ⟨5, 6⟩ := by
  rfl

theorem embedded?_truncated (name : String) : embedded? 1000 (rival name truncated) = none := by
  rfl

/-- A dump is resolved by a usable document of its file key if no unusable one of that key comes
before all usable ones. If one does, it decides, and the dump keeps the key of its name. -/
theorem usable_document_decides_unless_preceded (catalog : Catalog) (limit dumpLimit : Nat)
    (dir : String) (listing : List DirEntry) (place : Nat) (dump : NamedDump)
    (read : ((Artifact.discover .counter listing).filterMap (named? dumpLimit dir))[place]? =
      some dump) :
    let documents := documentsFor listing dump.fileKey
    let gives := GivesAt catalog limit dumpLimit dir listing place dump
    (∀ u ∈ documents, (embedded? limit u).isSome →
      (∀ b ∈ documents, embedded? limit b = none →
        ∃ v ∈ documents, (embedded? limit v).isSome ∧ v.name < b.name) →
      ∃ v ∈ documents, (∀ w ∈ documents, v.name ≤ w.name) ∧
        ∃ key, embedded? limit v = some key ∧ gives key (.resolved key)) ∧
    (∀ b ∈ documents, embedded? limit b = none →
      (∀ v ∈ documents, (embedded? limit v).isSome → b.name < v.name) →
      ∃ v ∈ documents, (∀ w ∈ documents, v.name ≤ w.name) ∧ embedded? limit v = none ∧
        gives dump.fileKey
          (keptBeside dump.path dump.fileKey (troubleOf limit dir v))) := by
  intro documents gives
  have given : gives (outcome limit dir listing dump).1 (outcome limit dir listing dump).2 :=
    givesAt_outcome catalog limit read
  constructor
  · intro u member usable preceded
    obtain ⟨a, found, decides, least⟩ := exists_deciding member
    cases embedded : embedded? limit a with
    | none =>
      obtain ⟨v, member', usable', before⟩ := preceded a found embedded
      exact absurd before (String.not_lt.mpr (least v member'))
    | some key =>
      refine ⟨a, found, least, key, embedded, ?_⟩
      rw [outcome, decides, keyAndStatus_some, embedded] at given
      exact given
  · intro b member unusable preceding
    obtain ⟨a, found, decides, least⟩ := exists_deciding member
    cases embedded : embedded? limit a with
    | none =>
      refine ⟨a, found, least, embedded, ?_⟩
      rw [outcome, decides, keyAndStatus_some, embedded] at given
      exact given
    | some key =>
      have before := preceding a found (by rw [embedded]; rfl)
      exact absurd before (String.not_lt.mpr (least b member))

theorem usable_document_decides_rival :
    GivesAt Catalog.standard 1000 1000 "r" (rivals renamed truncated) 0
      ⟨"r/perf_q1_p2.txt", ⟨1, 2⟩, []⟩ ⟨5, 6⟩ (.resolved ⟨5, 6⟩) := by
  have decided := (usable_document_decides_unless_preceded Catalog.standard 1000 1000 "r"
    (rivals renamed truncated) 0 ⟨"r/perf_q1_p2.txt", ⟨1, 2⟩, []⟩ (dump_of_rivals _ _)).1
  rw [documentsFor_rivals] at decided
  have usable : (embedded? 1000 (rival "benchmark_results_q01_p2.json" renamed)).isSome := by
    rw [embedded?_renamed]
    rfl
  have preceded : ∀ b ∈ [rival "benchmark_results_q01_p2.json" renamed,
      rival "benchmark_results_q1_p2.json" truncated], embedded? 1000 b = none →
      "benchmark_results_q01_p2.json" < b.name := by
    intro b member unusable
    rcases List.mem_cons.mp member with rfl | member
    · rw [unusable] at usable
      cases usable
    · rw [List.mem_singleton.mp member]
      decide +kernel
  obtain ⟨v, member, -, key, embedded, given⟩ := decided _ List.mem_cons_self usable
    fun b member unusable => ⟨_, List.mem_cons_self, usable, preceded b member unusable⟩
  rcases List.mem_cons.mp member with rfl | member
  · rw [embedded?_renamed] at embedded
    cases embedded
    exact given
  · rw [List.mem_singleton.mp member, embedded?_truncated] at embedded
    cases embedded

/-- A usable document can be hidden by an unusable one of the same file key. -/
theorem usable_document_can_be_hidden :
    ¬ ∀ (catalog : Catalog) (limit dumpLimit : Nat) (dir : String) (listing : List DirEntry)
      (place : Nat) (dump : NamedDump),
      ((Artifact.discover .counter listing).filterMap (named? dumpLimit dir))[place]? = some dump →
      (∃ u ∈ documentsFor listing dump.fileKey, (embedded? limit u).isSome) →
      ∃ v ∈ documentsFor listing dump.fileKey, ∃ key, embedded? limit v = some key ∧
        GivesAt catalog limit dumpLimit dir listing place dump key (.resolved key) := by
  intro claim
  have read := dump_of_rivals truncated renamed
  have usable : ∃ u ∈ documentsFor (rivals truncated renamed) ⟨1, 2⟩,
      (embedded? 1000 u).isSome := by
    rw [documentsFor_rivals]
    refine ⟨_, List.mem_cons_of_mem _ List.mem_cons_self, ?_⟩
    rw [embedded?_renamed]
    rfl
  obtain ⟨v, -, key, -, resolved⟩ := claim Catalog.standard 1000 1000 "r" _ 0 _ read usable
  have given := givesAt_outcome Catalog.standard 1000 read
  rw [outcome, deciding?_rivals, keyAndStatus_some, embedded?_truncated] at given
  have same := Option.some.inj (given.2.symm.trans resolved.2)
  cases congrArg SourceReport.status same

end QueueBench.Counter
