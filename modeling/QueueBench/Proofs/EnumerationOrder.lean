import QueueBench.Proofs.DirectoryRuns
import QueueBench.Proofs.UsableDocuments

set_option autoImplicit false

namespace QueueBench

namespace Artifact

/-- Strictly before by queue size, then producer count, both as numbers, then file name. -/
def Before (a b : Artifact) : Prop :=
  let first := a.found.key
  let second := b.found.key
  first.queueSize.toNat < second.queueSize.toNat ∨
    first.queueSize.toNat = second.queueSize.toNat ∧
      (first.producerCount.toNat < second.producerCount.toNat ∨
        first.producerCount.toNat = second.producerCount.toNat ∧ a.name < b.name)

theorem InOrder.before {a b : Artifact} (ordered : InOrder a b) (apart : a.name ≠ b.name) :
    Before a b := by
  rcases ordered with size | ⟨size, count | ⟨count, names⟩⟩
  · exact .inl (UInt64.lt_iff_toNat_lt.mp size)
  · exact .inr ⟨congrArg UInt64.toNat size, .inl (UInt32.lt_iff_toNat_lt.mp count)⟩
  · have less : a.name < b.name := by
      apply String.not_le.mp
      intro back
      exact apart (String.le_antisymm names back)
    exact .inr ⟨congrArg UInt64.toNat size, .inr ⟨congrArg UInt32.toNat count, less⟩⟩

/-- Two files that precede each other have one name. -/
theorem InOrder.name_eq {a b : Artifact} (forth : InOrder a b) (back : InOrder b a) :
    a.name = b.name := by
  by_contra apart
  have first := forth.before apart
  have second := back.before (Ne.symm apart)
  unfold Before at first second
  dsimp only at first second
  rcases first with size | ⟨size, count | ⟨count, names⟩⟩
  · omega
  · omega
  · rcases second with size' | ⟨size', count' | ⟨count', names'⟩⟩
    · omega
    · omega
    · exact String.lt_asymm names names'

section Enumeration

variable {listing listing' : List DirEntry} (distinct : (listing.map (·.name)).Nodup)
include distinct

theorem discover_before (family : Family) : (discover family listing).Pairwise Before := by
  have apart := List.pairwise_map.mp (names_nodup distinct family)
  exact (discover_inOrder family listing).imp₂ (fun _ _ ordered names => ordered.before names) apart

/-- The order of discovery leaves one way to arrange the files that are found. -/
theorem discover_eq_of_inOrder {family : Family} {files : List Artifact}
    (found : files.Perm (listing.filterMap (fromEntry family)))
    (ordered : files.Pairwise InOrder) : discover family listing = files := by
  have same := found.trans (discover_perm family listing).symm
  symm
  refine same.eq_of_pairwise ?_ ordered (discover_inOrder family listing)
  intro a b here there forth back
  exact eq_of_name_eq distinct (same.mem_iff.mp here) there (forth.name_eq back)

theorem discover_eq_of_perm (reordered : listing.Perm listing') (family : Family) :
    discover family listing' = discover family listing := by
  have found : (discover family listing).Perm (listing'.filterMap (fromEntry family)) :=
    (discover_perm family listing).trans (reordered.filterMap _)
  have distinct' := (reordered.map (·.name)).nodup_iff.mp distinct
  exact discover_eq_of_inOrder distinct' found (discover_inOrder family listing)

end Enumeration

end Artifact

section Runs

variable {listing listing' : List DirEntry}
  (same : ∀ family, Artifact.discover family listing' = Artifact.discover family listing)
include same

/-- A run sees of a listing only what is discovered in it. -/
theorem Dataset.ofDirectory_congr (settings : Settings) (dir : String) :
    ofDirectory settings dir listing' = ofDirectory settings dir listing := by
  have documents : Throughput.loadDirectory settings.maxFileBytes dir listing' =
      Throughput.loadDirectory settings.maxFileBytes dir listing := by
    unfold Throughput.loadDirectory
    rw [same]
  have traces : loadTraces settings dir listing' = loadTraces settings dir listing := by
    unfold loadTraces ZoneTrace.loadDirectory
    rw [same]
  have counters : ∀ index, loadCounters settings dir index listing' =
      loadCounters settings dir index listing := by
    intro index
    unfold loadCounters Counter.loadDirectory
    rw [same]
  unfold ofDirectory
  rw [documents, traces]
  simp only [counters]

end Runs

/-- What is discovered in a directory, and all that a run over it makes, is the same for every order
in which the entries may be listed. -/
theorem enumeration_order_irrelevant {tree tree' : FileTree} {dir : String}
    {listing listing' : List DirEntry} (listed : tree.list dir = .ok listing)
    (listed' : tree'.list dir = .ok listing') (reordered : listing.Perm listing')
    (distinct : (listing.map (·.name)).Nodup) :
    (∀ family,
      let files := Artifact.discover family listing
      Artifact.discover family listing' = files ∧
      (∀ a, a ∈ files ↔ ∃ entry ∈ listing, entry.content = some a.content ∧
        entry.name = a.name.toUTF8.data.toList ∧ family.matchesName a.name = true ∧
          a.found = family.decode a.name) ∧
      (files.map (·.name)).Nodup ∧ files.Pairwise Artifact.Before ∧
      ∀ a ∈ files, family.decode a.name = .malformed → a.found.key = ⟨0, 0⟩) ∧
    ∀ settings, Dataset.ofPath settings tree' dir = Dataset.ofPath settings tree dir := by
  have same := fun family => Artifact.discover_eq_of_perm distinct reordered family
  constructor
  · intro family files
    refine ⟨same family, ?members, Artifact.names_nodup distinct family,
      Artifact.discover_before distinct family, ?malformed⟩
    case members =>
      intro a
      rw [Artifact.mem_discover]
      simp only [Artifact.fromEntry_eq_some_iff_toUTF8]
    case malformed =>
      intro a member malformed
      obtain ⟨entry, -, found⟩ := Artifact.mem_discover.mp member
      have read := (Artifact.fromEntry_eq_some_iff_toUTF8.mp found).2.2.2
      rw [read, malformed]
      rfl
  · intro settings
    rw [Dataset.ofPath_eq_ofDirectory settings listed,
      Dataset.ofPath_eq_ofDirectory settings listed']
    exact Dataset.ofDirectory_congr same settings dir

open Counter in
/-- The sizes 9 and 10 are told apart as numbers, and the name without a size comes first. -/
theorem enumeration_order_irrelevant_reversed :
    let files := [("benchmark_results_q1_p1.json", renamed), ("tracy_q.csv", ""),
      ("tracy_q9_p1.csv", ""), ("tracy_q10_p1.csv", "")]
    let listing := textEntries files
    let tree := FileTree.ofTexts files
    let tree' := FileTree.ofTexts files.reverse
    (tree.list "r" = .ok listing ∧ tree'.list "r" = .ok listing.reverse) ∧
    (listing.Perm listing.reverse ∧ (listing.map (·.name)).Nodup) ∧
    (Artifact.discover .zoneTrace listing.reverse).map (·.name) =
      ["tracy_q.csv", "tracy_q9_p1.csv", "tracy_q10_p1.csv"] ∧
    Dataset.ofPath .standard tree' "r" = Dataset.ofPath .standard tree "r" := by
  intro files listing tree tree'
  have listed : tree.list "r" = .ok listing := by rfl
  have listed' : tree'.list "r" = .ok listing.reverse := by rfl
  have reordered : listing.Perm listing.reverse := (List.reverse_perm listing).symm
  have distinct : (listing.map (·.name)).Nodup := by decide +kernel
  obtain ⟨discovered, run⟩ := enumeration_order_irrelevant listed listed' reordered distinct
  refine ⟨⟨listed, listed'⟩, ⟨reordered, distinct⟩, ?_, run .standard⟩
  rw [(discovered .zoneTrace).1]
  have ordered : Artifact.discover .zoneTrace listing =
      [⟨"tracy_q.csv", .malformed, .ok "".toUTF8⟩,
        ⟨"tracy_q9_p1.csv", .exact ⟨9, 1⟩, .ok "".toUTF8⟩,
        ⟨"tracy_q10_p1.csv", .exact ⟨10, 1⟩, .ok "".toUTF8⟩] := by
    apply Artifact.discover_eq
    · rfl
    · decide +kernel
  rw [ordered]
  rfl

end QueueBench
