import QueueBench.Proofs.Containers
import QueueBench.Source.Listing

set_option autoImplicit false

namespace QueueBench

namespace Family

theorem opening_isPrefixOf {family : Family} {name : String} (matched : family.matchesName name) :
    family.opening.toList <+: name.toList := by
  unfold matchesName at matched
  rw [Bool.and_eq_true, Bool.and_eq_true] at matched
  exact List.isPrefixOf_iff_prefix.mp matched.1.2

/-- The first letters of the families differ. -/
theorem eq_of_matchesName {f g : Family} {name : String} (first : f.matchesName name)
    (second : g.matchesName name) : f = g := by
  obtain ⟨restF, nameF⟩ := opening_isPrefixOf first
  obtain ⟨restG, nameG⟩ := opening_isPrefixOf second
  have heads := congrArg List.head? (nameF.trans nameG.symm)
  cases f <;> cases g <;> first
    | rfl
    | (revert heads
       simp [opening])

end Family

theorem isLE_compare_names (s t : String) : (compare s t).isLE = true ↔ s ≤ t :=
  isLE_compareOfLessAndEq String.le_antisymm String.not_le String.le_total

namespace Artifact

/-- The order of discovery: by queue size, then producer count, then file name. -/
def InOrder (a b : Artifact) : Prop :=
  a.found.key.queueSize < b.found.key.queueSize ∨
    a.found.key.queueSize = b.found.key.queueSize ∧
      (a.found.key.producerCount < b.found.key.producerCount ∨
        a.found.key.producerCount = b.found.key.producerCount ∧ a.name ≤ b.name)

theorem precedes_iff (a b : Artifact) : precedes a b = true ↔ InOrder a b := by
  have keys : compare a.found.key b.found.key =
      (compare a.found.key.queueSize b.found.key.queueSize).then
        (compare a.found.key.producerCount b.found.key.producerCount) := rfl
  unfold precedes InOrder
  rw [keys, Ordering.isLE_then_iff_or, Ordering.then_eq_lt, Ordering.then_eq_eq,
    isLE_compare_names, Std.compare_eq_lt, Std.compare_eq_lt, Std.LawfulEqOrd.compare_eq_iff_eq,
    Std.LawfulEqOrd.compare_eq_iff_eq, or_assoc, and_assoc, ← and_or_left]

/-- Among the files of one key the order is that of their names. -/
theorem InOrder.name_le {a b : Artifact} (ordered : InOrder a b)
    (same : a.found.key = b.found.key) : a.name ≤ b.name := by
  unfold InOrder at ordered
  rw [same] at ordered
  rcases ordered with less | ⟨-, less | ⟨-, names⟩⟩
  · exact absurd less (UInt64.lt_irrefl _)
  · exact absurd less (UInt32.lt_irrefl _)
  · exact names

def byKeyThenName : Artifact → Artifact → Ordering :=
  compareLex (compareOn fun a => a.found.key) (compareOn Artifact.name)

instance : Std.TransCmp byKeyThenName :=
  inferInstanceAs (Std.TransCmp (compareLex (compareOn fun a => a.found.key)
    (compareOn Artifact.name)))

theorem precedes_trans (a b c : Artifact) (first : precedes a b = true)
    (second : precedes b c = true) : precedes a c = true := by
  have forward : (byKeyThenName a b).isLE = true := first
  have onward : (byKeyThenName b c).isLE = true := second
  have through : (byKeyThenName a c).isLE = true := Std.TransCmp.isLE_trans forward onward
  exact through

theorem precedes_total (a b : Artifact) : (precedes a b || precedes b a) = true := by
  have swapped : byKeyThenName b a = (byKeyThenName a b).swap := Std.OrientedCmp.eq_swap
  have forward : precedes a b = (byKeyThenName a b).isLE := rfl
  have backward : precedes b a = (byKeyThenName b a).isLE := rfl
  rw [forward, backward, swapped]
  cases byKeyThenName a b <;> rfl

theorem discover_perm (family : Family) (listing : List DirEntry) :
    (discover family listing).Perm (listing.filterMap (fromEntry family)) :=
  List.mergeSort_perm _ _

theorem discover_eq {family : Family} {listing : List DirEntry} {files : List Artifact}
    (found : listing.filterMap (fromEntry family) = files)
    (ordered : files.Pairwise fun a b => precedes a b = true) : discover family listing = files := by
  rw [discover, found]
  exact List.mergeSort_of_pairwise ordered

theorem discover_inOrder (family : Family) (listing : List DirEntry) :
    (discover family listing).Pairwise InOrder := by
  have sorted := List.pairwise_mergeSort precedes_trans precedes_total
    (listing.filterMap (fromEntry family))
  exact sorted.imp fun ordered => (precedes_iff _ _).mp ordered

theorem mem_discover {family : Family} {listing : List DirEntry} {a : Artifact} :
    a ∈ discover family listing ↔ ∃ entry ∈ listing, fromEntry family entry = some a := by
  rw [(discover_perm family listing).mem_iff, List.mem_filterMap]

theorem discover_remove {family : Family} {entry : DirEntry}
    (other : fromEntry family entry = none) (before after : List DirEntry) :
    discover family (before ++ entry :: after) = discover family (before ++ after) := by
  unfold discover
  rw [List.filterMap_append, List.filterMap_cons_none other, ← List.filterMap_append]

theorem fromEntry_eq_some_iff {family : Family} {entry : DirEntry} {a : Artifact} :
    fromEntry family entry = some a ↔
      entry.content = some a.content ∧
        (∃ letters, Text.Utf8.decode? entry.name = some letters ∧ a.name = String.ofList letters) ∧
          family.matchesName a.name = true ∧ a.found = family.decode a.name := by
  unfold fromEntry
  constructor
  · intro found
    simp only [Option.bind_eq_bind, Option.bind_eq_some_iff] at found
    obtain ⟨content, held, letters, decoded, named⟩ := found
    split at named
    · rename_i matched
      cases named
      exact ⟨held, ⟨letters, decoded, rfl⟩, matched, rfl⟩
    · cases named
  · obtain ⟨name, found, content⟩ := a
    rintro ⟨held, ⟨letters, decoded, named⟩, matched, read⟩
    dsimp only at held named matched read
    subst named read
    simp only [held, decoded, Option.bind_eq_bind, Option.bind_some]
    exact if_pos matched

/-- No entry is an artifact of two families. -/
theorem family_unique {f g : Family} {entry : DirEntry} {a b : Artifact}
    (first : fromEntry f entry = some a) (second : fromEntry g entry = some b) : f = g := by
  obtain ⟨-, ⟨letters, decoded, name⟩, matched, -⟩ := fromEntry_eq_some_iff.mp first
  obtain ⟨-, ⟨letters', decoded', name'⟩, matched', -⟩ := fromEntry_eq_some_iff.mp second
  have same : letters = letters' := Option.some.inj (decoded.symm.trans decoded')
  rw [name', ← same, ← name] at matched'
  exact Family.eq_of_matchesName matched matched'

theorem fromEntry_eq_none_of_other {f g : Family} {entry : DirEntry} {a : Artifact}
    (found : fromEntry f entry = some a) (apart : f ≠ g) : fromEntry g entry = none := by
  cases other : fromEntry g entry with
  | none => rfl
  | some b => exact absurd (family_unique found other) apart

end Artifact

end QueueBench
