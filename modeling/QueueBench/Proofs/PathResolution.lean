import QueueBench.Proofs.DirectoryNames
import QueueBench.Proofs.TextPieces

set_option autoImplicit false

namespace QueueBench

namespace FileTree

theorem node?_root (tree : FileTree) : tree.node? [] = some .directory := rfl

theorem node?_of_inner {location : Location} (inner : location ≠ []) (tree : FileTree) :
    tree.node? location = (tree.nodes.find? fun n => n.1 == location).map (·.2) := by
  unfold node?
  rw [if_neg (by simpa using inner)]

/-- What a list of nodes holds at a location once all nodes there are replaced. -/
theorem find?_replaced (nodes : List (Location × Node)) (location other : Location) (node : Node) :
    ((nodes.map fun n => if n.1 == location then (location, node) else n).find?
        fun n => n.1 == other).map (·.2) =
      if other = location ∧ nodes.any (fun n => n.1 == location) then some node
      else (nodes.find? fun n => n.1 == other).map (·.2) := by
  induction nodes with
  | nil => simp
  | cons n rest ih =>
    rw [List.map_cons, List.any_cons]
    by_cases here : n.1 = location
    · rw [if_pos (beq_iff_eq.mpr here), beq_iff_eq.mpr here, Bool.true_or]
      by_cases same : other = location
      · rw [if_pos ⟨same, rfl⟩, List.find?_cons_of_pos (by simpa using same.symm)]
        rfl
      · have apart : ¬ ((location == other) = true) := by
          rw [beq_iff_eq]
          exact fun equal => same equal.symm
        rw [List.find?_cons_of_neg (by simpa using apart), ih, if_neg fun both => same both.1,
          if_neg fun both => same both.1, List.find?_cons_of_neg (by simpa [here] using apart)]
    · have skipped : (n.1 == location) = false := beq_eq_false_iff_ne.mpr here
      rw [if_neg (by simpa using here), skipped, Bool.false_or]
      by_cases there : n.1 = other
      · have apart : ¬ other = location := fun equal => here (there.trans equal)
        rw [List.find?_cons_of_pos (by simpa using there), if_neg fun both => apart both.1,
          List.find?_cons_of_pos (by simpa using there)]
      · rw [List.find?_cons_of_neg (by simpa using there), ih,
          List.find?_cons_of_neg (by simpa using there)]

theorem node?_set {location : Location} (inner : location ≠ []) (tree : FileTree) (node : Node)
    (other : Location) :
    (tree.set location node).node? other =
      if other = location then some node else tree.node? other := by
  by_cases root : other = []
  · rw [root, if_neg inner.symm, node?_root, node?_root]
  rw [node?_of_inner root, node?_of_inner root, set]
  split
  case isTrue present =>
    rw [find?_replaced]
    simp only [present, and_true]
  case isFalse absent =>
    rw [List.find?_append, Option.map_or]
    by_cases same : other = location
    · have nowhere : tree.nodes.find? (fun n => n.1 == other) = none := by
        apply List.find?_eq_none.mpr
        intro n listed here
        rw [same] at here
        exact absent (List.any_eq_true.mpr ⟨n, listed, here⟩)
      rw [nowhere, if_pos same, Option.map_none, Option.none_or,
        List.find?_cons_of_pos (by simpa using same.symm)]
      rfl
    · have apart : ¬ location = other := fun equal => same equal.symm
      simp [same, apart]

/-- The file that a directory lists stands there, if no location stands in the tree twice. -/
theorem Distinct.node?_of_entry {tree : FileTree} (distinct : tree.Distinct) {dir : Location}
    {name : FileName} {content : Except PathFault ByteArray}
    (listed : ⟨name, some content⟩ ∈ tree.entriesOf dir) :
    tree.node? (dir ++ [name]) = some (.file content) := by
  obtain ⟨⟨location, node⟩, here, made⟩ := List.mem_filterMap.mp listed
  obtain ⟨found, inside, made⟩ := Option.map_eq_some_iff.mp made
  have place := nameIn?_eq_some inside
  have inner : dir ++ [name] ≠ [] := List.append_ne_nil_of_right_ne_nil _ (List.cons_ne_nil _ _)
  cases node with
  | directory => cases made
  | file held =>
    cases made
    rw [node?_of_inner inner]
    cases search : tree.nodes.find? (fun n => n.1 == dir ++ [name]) with
    | none => exact absurd (beq_iff_eq.mpr place) (List.find?_eq_none.mp search _ here)
    | some n =>
      have there := List.mem_of_find?_eq_some search
      have same : n.1 = dir ++ [name] := by simpa using List.find?_some search
      have one := List.inj_on_of_nodup_map distinct there here (same.trans place.symm)
      rw [one]
      rfl

theorem node?_of_follow {tree : FileTree} {start location : Location} {names : List FileName}
    {node : Node} (led : tree.follow start names = .ok (location, node)) :
    tree.node? location = some node := by
  induction names generalizing start with
  | nil =>
    rw [follow] at led
    split at led
    · rename_i found
      cases led
      exact found
    · cases led
  | cons name rest ih =>
    rw [follow] at led
    split at led
    · cases led
    · cases led
    · split at led
      · exact ih led
      split at led
      · exact ih led
      · exact ih led

theorem follow_nil {tree : FileTree} {location : Location} {node : Node}
    (here : tree.node? location = some node) : tree.follow location [] = .ok (location, node) := by
  rw [follow, here]

theorem follow_append {tree : FileTree} {start location : Location} {front : List FileName}
    {node : Node} (led : tree.follow start front = .ok (location, node)) (back : List FileName) :
    tree.follow start (front ++ back) = tree.follow location back := by
  induction front generalizing start with
  | nil =>
    rw [follow] at led
    split at led
    · cases led
      rfl
    · cases led
  | cons name rest ih =>
    rw [List.cons_append, follow]
    rw [follow] at led
    split at led
    · cases led
    · cases led
    · rename_i here
      split at led
      case isTrue dot => rw [if_pos dot, ih led]
      case isFalse dot =>
        rw [if_neg dot]
        split at led
        case isTrue up => rw [if_pos up, ih led]
        case isFalse up => rw [if_neg up, ih led]

/-- A name that leads on, below a directory. -/
theorem follow_name {tree : FileTree} {location : Location}
    (here : tree.node? location = some .directory) {name : FileName} (dot : isDot name = false)
    (up : isUp name = false) :
    tree.follow location [name] = tree.follow (location ++ [name]) [] := by
  have first : tree.follow location [name] = if isDot name then tree.follow location []
      else if isUp name then tree.follow location.dropLast []
      else tree.follow (location ++ [name]) [] := by
    rw [follow.eq_2, here]
  rw [first, if_neg (by simp [dot]), if_neg (by simp [up])]

/-- A way that led to a directory leads there still while all directories stay. -/
theorem follow_of_kept {tree tree' : FileTree}
    (kept : ∀ location, tree.node? location = some .directory →
      tree'.node? location = some .directory)
    {start location : Location} {names : List FileName}
    (led : tree.follow start names = .ok (location, .directory)) :
    tree'.follow start names = .ok (location, .directory) := by
  induction names generalizing start with
  | nil =>
    have here := node?_of_follow led
    rw [follow] at led
    split at led
    · cases led
      exact follow_nil (kept location here)
    · cases led
  | cons name rest ih =>
    rw [follow] at led ⊢
    split at led
    · cases led
    · cases led
    · rename_i here
      rw [kept start here]
      dsimp only
      split at led
      case isTrue dot => rw [if_pos dot, ih led]
      case isFalse dot =>
        rw [if_neg dot]
        split at led
        case isTrue up => rw [if_pos up, ih led]
        case isFalse up => rw [if_neg up, ih led]

/-- An empty name or a single dot on the way changes nothing if another name follows. -/
theorem follow_dot (tree : FileTree) (start : Location) (front : List FileName)
    {dot : FileName} (stays : isDot dot = true) (name : FileName) (back : List FileName) :
    tree.follow start (front ++ dot :: name :: back) =
      tree.follow start (front ++ name :: back) := by
  induction front generalizing start with
  | nil =>
    rw [List.nil_append, List.nil_append, follow.eq_2]
    cases here : tree.node? start with
    | none => rw [follow.eq_2, here]
    | some node =>
      cases node with
      | file content => rw [follow.eq_2, here]
      | directory =>
        dsimp only
        rw [if_pos stays]
  | cons first rest ih =>
    rw [List.cons_append, List.cons_append, follow.eq_2, follow.eq_2]
    simp only [ih]

/-- The names of a joined path are those of its parts. -/
theorem pieces_join (front back : String) :
    pieces (front ++ "/" ++ back) = pieces front ++ pieces back := by
  have bytes : (front ++ "/" ++ back).toUTF8.data.toList =
      front.toUTF8.data.toList ++ 0x2F :: back.toUTF8.data.toList := by
    simp only [Text.Utf8.toUTF8_eq_encode]
    rw [String.toList_append, String.toList_append, Text.Utf8.encode_append,
      Text.Utf8.encode_append, List.append_assoc]
    rfl
  rw [pieces, bytes, Text.cut_append rfl]
  rfl

theorem pieces_name {name : String} (plain : '/' ∉ name.toList) :
    pieces name = [name.toUTF8.data.toList] := by
  apply Text.cut_whole
  intro b member
  rw [Text.Utf8.toUTF8_eq_encode] at member
  obtain ⟨c, inside, member⟩ := List.mem_flatMap.mp member
  rw [beq_eq_false_iff_ne]
  rintro rfl
  have slash : c = '/' := Text.Utf8.eq_of_mem_encodeChar (c := '/') (by decide) member
  rw [slash] at inside
  exact plain inside

theorem origin_append (tree : FileTree) {front : String} (present : front ≠ "")
    (back : String) : tree.origin (front ++ back) = tree.origin front := by
  have letters : front.toList ≠ [] := fun none => present (String.toList_eq_nil_iff.mp none)
  unfold origin
  rw [String.toList_append, List.head?_append_of_ne_nil _ letters]

theorem resolve_of_present (tree : FileTree) {path : String} (present : path ≠ "") :
    tree.resolve path = tree.follow (tree.origin path) (pieces path) := by
  unfold resolve
  rw [if_neg fun none => present (String.isEmpty_iff.mp none)]

theorem append_present {front : String} (present : front ≠ "") (back : String) :
    front ++ back ≠ "" := by
  intro none
  exact present (String.append_eq_empty_iff.mp none).1

open Artifact (pathIn) in
/-- A plain name in a directory is followed after the names of the directory. -/
theorem resolve_pathIn (tree : FileTree) {dir name : String} (present : dir ≠ "")
    (plain : '/' ∉ name.toList) :
    tree.resolve (pathIn dir name) =
      tree.follow (tree.origin dir) (pieces dir ++ [name.toUTF8.data.toList]) := by
  unfold pathIn
  split
  case isTrue closed =>
    have ending : dir.toList.getLast? = some '/' :=
      closed.resolve_left fun none => present (String.isEmpty_iff.mp none)
    obtain ⟨letters, split⟩ := List.getLast?_eq_some_iff.mp ending
    have joined : dir = String.ofList letters ++ "/" ++ "" := by
      apply String.toList_inj.mp
      rw [split]
      simp
    -- the name after the last slash is empty, and following it changes nothing
    have names : pieces dir = pieces (String.ofList letters) ++ [[]] := by
      rw [joined, pieces_join]
      rfl
    have longer : pieces (dir ++ name) =
        pieces (String.ofList letters) ++ [name.toUTF8.data.toList] := by
      rw [joined, String.append_empty, pieces_join, pieces_name plain]
    rw [resolve_of_present tree (append_present present name), origin_append tree present, longer,
      names, List.append_assoc]
    exact (follow_dot tree _ _ rfl _ []).symm
  case isFalse =>
    rw [resolve_of_present tree (append_present (append_present present "/") name),
      String.append_assoc, origin_append tree present, ← String.append_assoc, pieces_join,
      pieces_name plain]

/-- The file that a directory lists is found under its name in the directory. -/
theorem Distinct.resolve_entry {tree : FileTree} (distinct : tree.Distinct) {dir name : String}
    {listing : List DirEntry} (listed : tree.list dir = .ok listing)
    {content : Except PathFault ByteArray}
    (member : ⟨name.toUTF8.data.toList, some content⟩ ∈ listing)
    (plain : '/' ∉ name.toList) (dot : isDot name.toUTF8.data.toList = false)
    (up : isUp name.toUTF8.data.toList = false) :
    ∃ location, tree.resolve (Artifact.pathIn dir name) = .ok (location, .file content) := by
  have present : dir ≠ "" := by
    rintro rfl
    cases listed
  unfold FileTree.list at listed
  cases found : tree.resolve dir with
  | error fault =>
    rw [found] at listed
    cases listed
  | ok place =>
    obtain ⟨location, node⟩ := place
    rw [found] at listed
    cases node with
    | file content => cases listed
    | directory =>
      cases listed
      have led := found
      rw [resolve_of_present tree present] at led
      refine ⟨location ++ [name.toUTF8.data.toList], ?_⟩
      rw [resolve_pathIn tree present plain, follow_append led,
        follow_name (node?_of_follow led) dot up]
      exact follow_nil (distinct.node?_of_entry member)

theorem dropTrailing_of_whole {names : List FileName} (whole : (dropTrailing names).2 = false) :
    (dropTrailing names).1 = names := by
  have back : names.reverse.dropWhile List.isEmpty <:+ names.reverse := List.dropWhile_suffix _
  have length : names.reverse.length ≤ (names.reverse.dropWhile List.isEmpty).length := by
    rw [List.length_reverse]
    exact Nat.le_of_not_lt (of_decide_eq_false whole)
  unfold dropTrailing
  dsimp only
  rw [back.eq_of_length_le length, List.reverse_reverse]

/-- Names that no slash follows end in the last of them, which is not empty. -/
theorem exists_last {names kept : List FileName} {slash : Bool}
    (dropped : dropTrailing names = (kept, slash)) (closed : slash = false)
    (dot : isDot (kept.getLast?.getD []) = false) :
    ∃ front name, names = front ++ [name] ∧ kept = front ++ [name] := by
  have whole : kept = names := by
    have untrailed : (dropTrailing names).2 = false := by
      rw [dropped]
      exact closed
    rw [← dropTrailing_of_whole untrailed, dropped]
  rcases List.eq_nil_or_concat kept with none | ⟨front, name, split⟩
  · rw [none] at dot
    cases dot
  · rw [List.concat_eq_append] at split
    exact ⟨front, name, whole.symm.trans split, split⟩

/-- A file can be written if the names before its own lead to a directory that holds no directory
of that name. -/
theorem write_eq_ok {tree after : FileTree} {path : String} {content : ByteArray}
    (written : tree.write path content = .ok after) :
    path ≠ "" ∧ ∃ dir front name, pieces path = front ++ [name] ∧
      tree.follow (tree.origin path) front = .ok (dir, .directory) ∧ isDot name = false ∧
      isUp name = false ∧ tree.node? (dir ++ [name]) ≠ some .directory ∧
      after = tree.set (dir ++ [name]) (.file (.ok content)) := by
  unfold write at written
  by_cases present : path = ""
  · rw [if_pos (String.isEmpty_iff.mpr present)] at written
    cases written
  rw [if_neg fun none => present (String.isEmpty_iff.mp none)] at written
  refine ⟨present, ?_⟩
  cases dropped : dropTrailing (pieces path) with
  | mk names slash =>
    rw [dropped] at written
    dsimp only at written
    cases led : tree.follow (tree.origin path) names.dropLast with
    | error fault =>
      rw [led] at written
      cases written
    | ok place =>
      rw [led] at written
      obtain ⟨dir, node⟩ := place
      cases node with
      | file held => cases written
      | directory =>
        dsimp only [bind, Except.bind] at written
        split at written
        · cases written
        rename_i proper
        simp only [not_or, Bool.not_eq_true] at proper
        obtain ⟨closed, dot, up⟩ := proper
        obtain ⟨front, name, split, kept⟩ := exists_last dropped closed dot
        rw [kept, List.dropLast_concat] at led
        rw [kept, List.getLast?_concat, Option.getD_some] at dot up written
        refine ⟨dir, front, name, split, led, dot, up, ?_⟩
        split at written
        · cases written
        · rename_i free
          exact ⟨free, (Except.ok.inj written).symm⟩

/-- A written file stands at the end of its path, and nothing else has changed. -/
theorem resolve_of_write {tree after : FileTree} {path : String} {content : ByteArray}
    (written : tree.write path content = .ok after) :
    ∃ location, after.resolve path = .ok (location, .file (.ok content)) ∧
      ∀ other, other ≠ location → after.node? other = tree.node? other := by
  obtain ⟨present, dir, front, name, names, led, dot, up, free, rfl⟩ := write_eq_ok written
  have inner : dir ++ [name] ≠ [] := List.append_ne_nil_of_right_ne_nil _ (List.cons_ne_nil _ _)
  have now := node?_set inner tree (.file (.ok content))
  have kept : ∀ location, tree.node? location = some .directory →
      (tree.set (dir ++ [name]) (.file (.ok content))).node? location = some .directory := by
    intro location here
    have apart : location ≠ dir ++ [name] := by
      rintro rfl
      exact free here
    rw [now, if_neg apart, here]
  have home : (tree.set (dir ++ [name]) (.file (.ok content))).home = tree.home := by
    unfold set
    split <;> rfl
  have led' := follow_of_kept kept led
  refine ⟨dir ++ [name], ?_, fun other apart => by rw [now, if_neg apart]⟩
  rw [resolve_of_present _ present, names, origin, home]
  rw [← origin, follow_append led', follow_name (node?_of_follow led') dot up]
  exact follow_nil (by rw [now, if_pos rfl])

end FileTree

end QueueBench
