import Mathlib.Data.List.Nodup
import QueueBench.FileTree
import QueueBench.Proofs.DiscoveryOrder
import QueueBench.Proofs.TextEncoding

set_option autoImplicit false

namespace QueueBench

namespace FileTree

/-- No location stands twice in the tree. -/
def Distinct (tree : FileTree) : Prop := (tree.nodes.map (·.1)).Nodup

theorem Distinct.set {tree : FileTree} (distinct : tree.Distinct) (location : Location)
    (node : Node) : (tree.set location node).Distinct := by
  unfold Distinct FileTree.set
  split
  · have kept : ((fun n : Location × Node => n.1) ∘
        fun n => if n.1 == location then (location, node) else n) = fun n => n.1 := by
      funext n
      simp only [Function.comp_apply]
      split
      · rename_i same
        exact (eq_of_beq same).symm
      · rfl
    rw [List.map_map, kept]
    exact distinct
  · rename_i absent
    rw [List.map_append, List.map_singleton, List.nodup_append_comm]
    refine List.nodup_cons.mpr ⟨?_, distinct⟩
    intro member
    obtain ⟨n, listed, same⟩ := List.mem_map.mp member
    exact absent (List.any_eq_true.mpr ⟨n, listed, beq_iff_eq.mpr same⟩)

theorem Distinct.addDirectory {tree : FileTree} (distinct : tree.Distinct) (location : Location) :
    (tree.addDirectory location).Distinct := by
  unfold FileTree.addDirectory
  generalize List.range location.length = depths
  induction depths generalizing tree with
  | nil => exact distinct
  | cons depth rest ih =>
    apply ih
    dsimp only
    cases tree.node? (location.take (depth + 1)) with
    | some node => exact distinct
    | none => exact distinct.set _ _

theorem Distinct.addNode {tree : FileTree} (distinct : tree.Distinct) (location : Location)
    (node : Node) : (tree.addNode location node).Distinct :=
  (distinct.addDirectory location.dropLast).set location node

theorem distinct_empty (home : Location) : (empty home).Distinct := by
  have bare : Distinct ⟨home, []⟩ := List.nodup_nil
  exact bare.addDirectory home

/-- A directory `r` of text files, listed in the given order. -/
def ofTexts (files : List (String × String)) : FileTree :=
  files.foldl (fun tree file =>
    tree.addFile ["r".toUTF8.data.toList, file.1.toUTF8.data.toList] file.2.toUTF8) (empty [])

theorem distinct_ofTexts (files : List (String × String)) : (ofTexts files).Distinct := by
  unfold ofTexts
  have start := distinct_empty []
  revert start
  generalize empty [] = tree
  intro start
  induction files generalizing tree with
  | nil => exact start
  | cons file rest ih => exact ih _ (start.addNode _ _)

theorem nameIn?_eq_some {dir location : Location} {name : FileName}
    (inside : nameIn? dir location = some name) : location = dir ++ [name] := by
  unfold nameIn? at inside
  split at inside
  · rename_i last found
    split at inside
    · rename_i same
      rw [← same, ← Option.some.inj inside]
      exact (List.dropLast_append_getLast? last found).symm
    · cases inside
  · cases inside

theorem map_name_entriesOf (tree : FileTree) (dir : Location) :
    (tree.entriesOf dir).map (·.name) = (tree.nodes.map (·.1)).filterMap (nameIn? dir) := by
  unfold entriesOf
  rw [List.map_filterMap, List.filterMap_map]
  congr 1
  funext n
  obtain ⟨location, node⟩ := n
  simp only [Function.comp_apply]
  cases nameIn? dir location with
  | none => rfl
  | some name => cases node <;> rfl

theorem Distinct.entriesOf {tree : FileTree} (distinct : tree.Distinct) (dir : Location) :
    ((tree.entriesOf dir).map (·.name)).Nodup := by
  rw [map_name_entriesOf]
  apply distinct.filterMap
  intro first second name here there
  rw [nameIn?_eq_some here, nameIn?_eq_some there]

theorem Distinct.list {tree : FileTree} (distinct : tree.Distinct) {dir : String}
    {listing : List DirEntry} (listed : tree.list dir = .ok listing) :
    (listing.map (·.name)).Nodup := by
  unfold FileTree.list at listed
  cases resolved : tree.resolve dir with
  | error fault =>
    rw [resolved] at listed
    cases listed
  | ok found =>
    obtain ⟨location, node⟩ := found
    rw [resolved] at listed
    cases node with
    | file content => cases listed
    | directory =>
      rw [← Except.ok.inj listed]
      exact distinct.entriesOf location

theorem isDirectory_iff {tree : FileTree} {dir : String} :
    tree.isDirectory dir = true ↔ ∃ listing, tree.list dir = .ok listing := by
  unfold isDirectory list
  cases tree.resolve dir with
  | error fault => exact iff_of_false nofun nofun
  | ok found =>
    obtain ⟨location, node⟩ := found
    cases node with
    | file content => exact iff_of_false nofun nofun
    | directory => exact iff_of_true rfl ⟨_, rfl⟩

end FileTree

namespace Artifact

/-- An artifact is a file that is named in UTF-8 as the family names its files. -/
theorem fromEntry_eq_some_iff_toUTF8 {family : Family} {entry : DirEntry} {a : Artifact} :
    fromEntry family entry = some a ↔
      entry.content = some a.content ∧ entry.name = a.name.toUTF8.data.toList ∧
        family.matchesName a.name = true ∧ a.found = family.decode a.name := by
  rw [fromEntry_eq_some_iff, Text.Utf8.toUTF8_eq_encode]
  constructor
  · rintro ⟨held, ⟨letters, decoded, named⟩, matched, read⟩
    refine ⟨held, ?_, matched, read⟩
    rw [named, String.toList_ofList]
    exact Text.Utf8.eq_encode_of_decode? decoded
  · rintro ⟨held, named, matched, read⟩
    refine ⟨held, ⟨a.name.toList, ?_, String.ofList_toList.symm⟩, matched, read⟩
    exact Text.Utf8.decode?_eq_some_iff.mpr named

theorem matchesName_of_mem_discover {family : Family} {listing : List DirEntry} {a : Artifact}
    (member : a ∈ discover family listing) : family.matchesName a.name = true := by
  obtain ⟨entry, -, found⟩ := mem_discover.mp member
  exact (fromEntry_eq_some_iff_toUTF8.mp found).2.2.1

section Distinct

variable {listing : List DirEntry} (distinct : (listing.map (·.name)).Nodup)
include distinct

theorem names_nodup (family : Family) : ((discover family listing).map (·.name)).Nodup := by
  have entries : listing.Pairwise fun e f => e.name ≠ f.name := List.pairwise_map.mp distinct
  have found : (listing.filterMap (fromEntry family)).Pairwise fun a b => a.name ≠ b.name := by
    refine List.pairwise_filterMap.mpr (entries.imp ?_)
    intro e f apart a here b there same
    have first := (fromEntry_eq_some_iff_toUTF8.mp here).2.1
    have second := (fromEntry_eq_some_iff_toUTF8.mp there).2.1
    exact apart (by rw [first, second, same])
  exact (List.Perm.map _ (discover_perm family listing)).nodup_iff.mpr (List.pairwise_map.mpr found)

theorem eq_of_name_eq {family : Family} {a b : Artifact} (here : a ∈ discover family listing)
    (there : b ∈ discover family listing) (same : a.name = b.name) : a = b :=
  List.inj_on_of_nodup_map (names_nodup distinct family) here there same

end Distinct

theorem pathIn_injective {dir first second : String}
    (same : pathIn dir first = pathIn dir second) : first = second := by
  unfold pathIn at same
  split at same
  · exact String.append_right_inj dir |>.mp same
  · exact String.append_right_inj _ |>.mp same

theorem paths_nodup {listing : List DirEntry} (distinct : (listing.map (·.name)).Nodup)
    (dir : String) (family : Family) :
    ((discover family listing).map fun a => pathIn dir a.name).Nodup := by
  have names := names_nodup distinct family
  have paths := names.map (f := pathIn dir) fun _ _ same => pathIn_injective same
  rw [List.map_map] at paths
  exact paths

/-- Files of different families have different paths. -/
theorem paths_disjoint (listing : List DirEntry) (dir : String) {f g : Family} (apart : f ≠ g) :
    ((discover f listing).map fun a => pathIn dir a.name).Disjoint
      ((discover g listing).map fun a => pathIn dir a.name) := by
  intro path here there
  obtain ⟨a, first, rfl⟩ := List.mem_map.mp here
  obtain ⟨b, second, same⟩ := List.mem_map.mp there
  have matched := matchesName_of_mem_discover second
  rw [pathIn_injective same] at matched
  exact apart (Family.eq_of_matchesName (matchesName_of_mem_discover first) matched)

end Artifact

end QueueBench
