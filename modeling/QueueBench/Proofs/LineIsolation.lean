import QueueBench.Proofs.DocumentIsolation
import QueueBench.Proofs.FirstReadings
import QueueBench.Proofs.LossyDecoding

set_option autoImplicit false

namespace QueueBench

namespace Dump

open Text.Utf8 (decodeLossy)

def lineFeed : UInt8 := 0x0A

/-- No bytes, or bytes that end with a line feed. -/
def WholeLines (bytes : List UInt8) : Prop := bytes = [] ∨ bytes.getLast? = some lineFeed

/-- A line that is not accepted: bytes without a line feed, UTF-8 or not. -/
structure IsGarbage (bytes : List UInt8) : Prop where
  unbroken : lineFeed ∉ bytes
  rejected : parseLine (decodeLossy bytes) = none

theorem readings_bytes_append (front back : List UInt8) :
    readings (decodeLossy (front ++ lineFeed :: back)) =
      readings (decodeLossy front) ++ readings (decodeLossy back) := by
  have parted : decodeLossy (front ++ lineFeed :: back) =
      decodeLossy front ++ '\n' :: decodeLossy back :=
    Text.Utf8.decodeLossy_append (b := lineFeed) (by decide) front back
  rw [parted, readings_append]

theorem readings_whole_append {front : List UInt8} (whole : WholeLines front)
    (back : List UInt8) :
    readings (decodeLossy (front ++ back)) =
      readings (decodeLossy front) ++ readings (decodeLossy back) := by
  rcases whole with rfl | ends
  · rfl
  · obtain ⟨before, rfl⟩ := List.getLast?_eq_some_iff.mp ends
    have alone := readings_bytes_append before []
    have none : readings (decodeLossy []) = [] := rfl
    rw [none, List.append_nil] at alone
    rw [alone, List.append_assoc, List.singleton_append, readings_bytes_append]

theorem IsGarbage.readings_eq_nil {garbage : List UInt8} (is : IsGarbage garbage) :
    readings (decodeLossy garbage) = [] := by
  have unbroken : '\n' ∉ decodeLossy garbage := by
    intro member
    exact is.unbroken (Text.Utf8.mem_of_mem_decodeLossy (by decide) member)
  rw [readings_unbroken unbroken, is.rejected]
  rfl

/-- The readings are the same without the garbage and its line end. -/
theorem IsGarbage.readings_eq {front garbage : List UInt8} (is : IsGarbage garbage)
    (whole : WholeLines front) (back : List UInt8) :
    readings (decodeLossy (front ++ garbage ++ lineFeed :: back)) =
      readings (decodeLossy (front ++ back)) := by
  rw [List.append_assoc, readings_whole_append whole, readings_whole_append whole,
    readings_bytes_append, is.readings_eq_nil, List.nil_append]

/-- Only the readings of a dump count. -/
theorem extract_congr (catalog : Catalog) {text text' : List Char}
    (same : readings text = readings text') : extract catalog text = extract catalog text' := by
  unfold extract
  rw [same]

end Dump

namespace Counter

open Dump

/-- A dump counts only through the metrics that its bytes give. -/
theorem ofArtifact_content_congr {catalog : Catalog} {limit : Nat} {bytes bytes' : List UInt8}
    (fits : bytes.length ≤ limit) (fits' : bytes'.length ≤ limit)
    (same : extractBytes catalog bytes = extractBytes catalog bytes') (dir : String)
    (index : KeyIndex) (name : String) (found : NameKey) :
    Snapshot.ofArtifact catalog limit dir index ⟨name, found, .ok ⟨bytes.toArray⟩⟩ =
      Snapshot.ofArtifact catalog limit dir index ⟨name, found, .ok ⟨bytes'.toArray⟩⟩ := by
  have read : readLimited limit (Artifact.pathIn dir name) (.ok ⟨bytes.toArray⟩) = .ok bytes :=
    if_pos fits
  have read' : readLimited limit (Artifact.pathIn dir name) (.ok ⟨bytes'.toArray⟩) = .ok bytes' :=
    if_pos fits'
  unfold Snapshot.ofArtifact
  dsimp only
  rw [read, read']
  cases found with
  | exact fileKey =>
    dsimp only
    rw [same]
  | producerDefaulted key => rfl
  | malformed => rfl

/-- Loading gives the same for two listings that differ in the content of one file, if either
content gives the same metrics. -/
theorem loadDirectory_differ {catalog : Catalog} {limit : Nat} {bytes bytes' : List UInt8}
    (fits : bytes.length ≤ limit) (fits' : bytes'.length ≤ limit)
    (same : extractBytes catalog bytes = extractBytes catalog bytes') {name : List UInt8}
    {listing listing' : List DirEntry}
    (differ : DifferAt name (.ok ⟨bytes.toArray⟩) (.ok ⟨bytes'.toArray⟩) listing listing')
    (dir : String) (index : KeyIndex) :
    loadDirectory catalog limit dir index listing' = loadDirectory catalog limit dir index listing := by
  have snapshots : (Artifact.discover .counter listing').map
        (Snapshot.ofArtifact catalog limit dir index) =
      (Artifact.discover .counter listing).map (Snapshot.ofArtifact catalog limit dir index) := by
    obtain ⟨before, after, here, there⟩ := differ.discover .counter
    have own : (asArtifact .counter name (.ok ⟨bytes'.toArray⟩)).map
          (Snapshot.ofArtifact catalog limit dir index) =
        (asArtifact .counter name (.ok ⟨bytes.toArray⟩)).map
          (Snapshot.ofArtifact catalog limit dir index) := by
      rcases asArtifact_cases .counter name with absent | ⟨text, found, only⟩
      · rw [absent, absent]
      · rw [only, only, List.map_singleton, List.map_singleton,
          ofArtifact_content_congr fits fits' same]
    rw [here, there]
    simp only [List.map_append, own]
  unfold loadDirectory
  rw [snapshots]

end Counter

namespace Dump

/-- A line that is not accepted can be taken out of a dump, whatever its bytes are: the metrics stay
the same, and so does all that loading the dumps of a directory gives, as long as the dump is within
the size limit. -/
theorem garbage_is_confined_to_its_line (catalog : Catalog) {front garbage : List UInt8}
    (whole : WholeLines front) (is : IsGarbage garbage) (back : List UInt8) :
    extractBytes catalog (front ++ garbage ++ lineFeed :: back) =
        extractBytes catalog (front ++ back) ∧
      ∀ (limit : Nat) (dir : String) (index : KeyIndex) (name : List UInt8)
        (listing listing' : List DirEntry),
        (front ++ garbage ++ lineFeed :: back).length ≤ limit →
          DifferAt name (.ok ⟨(front ++ garbage ++ lineFeed :: back).toArray⟩)
            (.ok ⟨(front ++ back).toArray⟩) listing listing' →
          Counter.loadDirectory catalog limit dir index listing' =
            Counter.loadDirectory catalog limit dir index listing := by
  have metrics : extractBytes catalog (front ++ garbage ++ lineFeed :: back) =
      extractBytes catalog (front ++ back) := extract_congr catalog (is.readings_eq whole back)
  refine ⟨metrics, ?_⟩
  intro limit dir index name listing listing' fits differ
  have fits' : (front ++ back).length ≤ limit := by
    simp only [List.length_append, List.length_cons] at fits ⊢
    omega
  exact Counter.loadDirectory_differ fits fits' metrics differ dir index

/-- The first three bytes of a character of four between two lines that count: the line after them is
still its own. -/
theorem garbage_is_confined_to_its_line_truncated :
    let catalog : Catalog := Table.ofList [("hits", "hits"), ("misses", "misses")]
    let front := "1 hits\n".toUTF8.data.toList
    let garbage : List UInt8 := [0xF0, 0x9F, 0x98]
    let back := "2 misses".toUTF8.data.toList
    let name := "perf_q1_p2.txt".toUTF8.data.toList
    let listing (bytes : List UInt8) : List DirEntry := [⟨name, some (.ok ⟨bytes.toArray⟩)⟩]
    (extractBytes catalog (front ++ garbage ++ lineFeed :: back)).get? "misses" = some 2 ∧
      Counter.loadDirectory catalog 64 "r" ∅ (listing (front ++ back)) =
        Counter.loadDirectory catalog 64 "r" ∅
          (listing (front ++ garbage ++ lineFeed :: back)) := by
  intro catalog front garbage back name listing
  have whole : WholeLines front := Or.inr (by decide +kernel)
  have is : IsGarbage garbage := ⟨by decide, by decide +kernel⟩
  obtain ⟨metrics, loaded⟩ := garbage_is_confined_to_its_line catalog whole is back
  refine ⟨?_, loaded 64 "r" ∅ name _ _ (by decide +kernel) ?_⟩
  · rw [metrics]
    decide +kernel
  · exact ⟨List.nodup_singleton name, [], List.Perm.refl _, List.Perm.refl _⟩

end Dump

end QueueBench
