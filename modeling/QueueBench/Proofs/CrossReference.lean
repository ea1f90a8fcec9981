import QueueBench.Counter.Load
import QueueBench.Proofs.DocumentMerge

set_option autoImplicit false

namespace QueueBench

open Throughput (readDocument)

/-- The throughput file that decides about the dumps named with a key. -/
def deciding? (listing : List DirEntry) (fileKey : Key) : Option Artifact :=
  (Artifact.discover .throughput listing).find? fun a => a.found = .exact fileKey

theorem deciding?_eq_none_iff {listing : List DirEntry} {fileKey : Key} :
    deciding? listing fileKey = none ↔
      ∀ a ∈ Artifact.discover .throughput listing, a.found ≠ .exact fileKey := by
  rw [deciding?, List.find?_eq_none]
  simp only [decide_eq_true_iff, ne_eq]

theorem deciding?_first {listing : List DirEntry} {fileKey : Key} {a : Artifact}
    (decides : deciding? listing fileKey = some a) :
    a ∈ Artifact.discover .throughput listing ∧ a.found = .exact fileKey ∧
      ∀ b ∈ Artifact.discover .throughput listing, b.found = .exact fileKey → a.name ≤ b.name := by
  obtain ⟨matched, before, after, split, passed⟩ := List.find?_eq_some_iff_append.mp decides
  have own := of_decide_eq_true matched
  have ordered := Artifact.discover_inOrder .throughput listing
  rw [split, List.pairwise_append, List.pairwise_cons] at ordered
  rw [split]
  refine ⟨List.mem_append_right _ List.mem_cons_self, own, ?_⟩
  intro b member same
  rcases List.mem_append.mp member with earlier | later
  · have other := passed b earlier
    rw [same, decide_eq_true rfl] at other
    cases other
  · rcases List.mem_cons.mp later with rfl | later
    · exact String.le_refl _
    · exact (ordered.2.1.1 b later).name_le (by rw [own, same])

/-- What a file gives for the key of its name. -/
def entryFor (limit : Nat) (dir : String) (a : Artifact) : IndexEntry :=
  match readDocument limit (Artifact.pathIn dir a.name) a.content with
  | .error failure => .unusable failure.message
  | .ok document => Throughput.entryOf document

theorem entry_ofArtifact (limit : Nat) (dir : String) (a : Artifact) :
    (Throughput.Shard.ofArtifact limit dir a).entry =
      a.found.keyIfExact.map fun key => (key, entryFor limit dir a) := by
  unfold Throughput.Shard.ofArtifact entryFor
  dsimp only
  cases readDocument limit (Artifact.pathIn dir a.name) a.content with
  | error failure => rfl
  | ok document => rfl

theorem find?_entries (limit : Nat) (dir : String) (files : List Artifact) (fileKey : Key) :
    (((files.map (Throughput.Shard.ofArtifact limit dir)).filterMap (·.entry)).find?
        fun e => e.1 = fileKey).map (·.2) =
      (files.find? fun a => a.found = .exact fileKey).map (entryFor limit dir) := by
  induction files with
  | nil => rfl
  | cons a rest ih =>
    rw [List.map_cons]
    have entered := entry_ofArtifact limit dir a
    cases found : a.found with
    | exact key =>
      rw [found] at entered
      rw [List.filterMap_cons_some entered]
      by_cases same : key = fileKey
      · rw [List.find?_cons_of_pos (by simpa using same),
          List.find?_cons_of_pos (by simp [found, same])]
        rfl
      · rw [List.find?_cons_of_neg (by simpa using same),
          List.find?_cons_of_neg (by simp [found, same])]
        exact ih
    | producerDefaulted key =>
      rw [found] at entered
      rw [List.filterMap_cons_none entered, List.find?_cons_of_neg (by simp [found])]
      exact ih
    | malformed =>
      rw [found] at entered
      rw [List.filterMap_cons_none entered, List.find?_cons_of_neg (by simp [found])]
      exact ih

/-- The index of a directory answers with what the deciding file gives. -/
theorem get?_index (limit : Nat) (dir : String) (listing : List DirEntry) (fileKey : Key) :
    (Throughput.loadDirectory limit dir listing).value.index.get? fileKey =
      (deciding? listing fileKey).map (entryFor limit dir) := by
  have indexed := Throughput.get?_index_foldl_add Throughput.Loaded.empty
    ((Artifact.discover .throughput listing).map (Throughput.Shard.ofArtifact limit dir)) fileKey
  rw [find?_entries] at indexed
  exact indexed

end QueueBench
