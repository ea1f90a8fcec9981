import QueueBench.Proofs.MatrixStore
import QueueBench.Proofs.TableLookup

set_option autoImplicit false

namespace QueueBench.Matrix

/-- Writes a throughput under a key: whether it was written, and the matrix after that. -/
def write (m : Matrix) (call : Key × Float) : Bool × Matrix :=
  ((m.place? call.1 call.2).isSome, m.place call.1 call.2)

/-- The answers of calls one after the other, and the matrix after them all. -/
def run : Matrix → List (Key × Float) → List Bool × Matrix
  | m, [] => ([], m)
  | m, call :: calls =>
    let written := m.write call
    let later := run written.2 calls
    (written.1 :: later.1, later.2)

theorem onAxes_place (m : Matrix) (key other : Key) (x : Float) :
    (m.place key x).OnAxes other ↔ m.OnAxes other := by
  have axes := axes_place m key x
  unfold OnAxes
  rw [axes.1, axes.2]

theorem write_eq {m : Matrix} (valid : m.WellFormed) (call : Key × Float) :
    m.write call = (decide (m.OnAxes call.1), m.place call.1 call.2) := by
  have written : (m.place? call.1 call.2).isSome = decide (m.OnAxes call.1) := by
    rw [Bool.eq_iff_iff, decide_eq_true_iff]
    exact isSome_place?_iff valid call.1 call.2
  unfold write
  rw [written]

/-- A call off the axes is refused and changes nothing. -/
theorem write_off {m : Matrix} (valid : m.WellFormed) {key : Key} (off : ¬ m.OnAxes key)
    (x : Float) : m.write (key, x) = (false, m) := by
  rw [write_eq valid, place_eq_self (position?_eq_none valid off), decide_eq_false off]

theorem run_eq {m : Matrix} (valid : m.WellFormed) (calls : List (Key × Float)) :
    m.run calls = (calls.map fun call => decide (m.OnAxes call.1),
      calls.foldl (fun m call => m.place call.1 call.2) m) := by
  induction calls generalizing m with
  | nil => rfl
  | cons call calls ih =>
    have later := ih (place_wellFormed valid call.1 call.2)
    simp only [onAxes_place] at later
    simp only [run, write_eq valid, later, List.map_cons, List.foldl_cons]

theorem filter_others {key : Key} {calls : List (Key × Float)}
    (others : ∀ call ∈ calls, call.1 ≠ key) : calls.filter (fun call => call.1 = key) = [] := by
  apply List.filter_eq_nil_iff.mpr
  intro call member
  simpa using others call member

/-- The last call with a key is the one that no other with the key follows. -/
theorem getLast?_filter_key {key : Key} {x : Float} {before after : List (Key × Float)}
    (others : ∀ call ∈ after, call.1 ≠ key) :
    ((before ++ (key, x) :: after).filter fun call => call.1 = key).getLast? = some (key, x) := by
  rw [List.filter_append, List.filter_cons_of_pos (by simp), filter_others others,
    List.getLast?_concat]

/-- What a matrix of zeros told to calls, and what it has become by them. -/
structure KeepsLast (start : Matrix) (calls : List (Key × Float)) (told : List Bool)
    (m : Matrix) : Prop where
  answers : told = calls.map fun call => decide (start.OnAxes call.1)
  refused : ∀ key x, ¬ start.OnAxes key → m.write (key, x) = (false, m)
  queueSizes : m.queueSizes = start.queueSizes
  producerCounts : m.producerCounts = start.producerCounts
  shape : m.shape = start.shape
  rows : m.cells.length = start.producerCounts.length
  columns : ∀ row ∈ m.cells, row.length = start.queueSizes.length
  off : ∀ key, ¬ start.OnAxes key → m.get? key = none
  unwritten : ∀ key, start.OnAxes key → (∀ call ∈ calls, call.1 ≠ key) → m.get? key = some 0
  last : ∀ key x before after, start.OnAxes key → calls = before ++ (key, x) :: after →
    (∀ call ∈ after, call.1 ≠ key) → m.get? key = some x

/-- A matrix of zeros is a store of throughputs by key: whatever is called, the last call with a key
decides, and no call disturbs another key, the axes or the shape. -/
theorem runs_keep_last_writes (queueSizes : Table UInt64 Unit) (producerCounts : Table UInt32 Unit)
    (calls : List (Key × Float)) :
    let start := zeroed queueSizes.keys producerCounts.keys
    KeepsLast start calls (start.run calls).1 (start.run calls).2 := by
  intro start
  have valid : start.WellFormed :=
    zeroed_wellFormed queueSizes.keys_ascending producerCounts.keys_ascending
  have shaped := foldl_place_wellFormed valid Prod.fst Prod.snd calls
  obtain ⟨columns, rows⟩ := axes_foldl_place Prod.fst Prod.snd calls start
  have zeros (key : Key) : start.get? key = if start.OnAxes key then some 0 else none :=
    get?_zeroed queueSizes.keys_ascending producerCounts.keys_ascending key
  have given := get?_foldl_place valid Prod.fst Prod.snd calls
  rw [run_eq valid]
  refine ⟨rfl, ?refused, columns, rows, ?shape, ?rows, ?columns, ?off, ?unwritten, ?last⟩
  case refused =>
    intro key x off
    apply write_off shaped
    unfold OnAxes
    rw [columns, rows]
    exact off
  case shape =>
    unfold shape
    rw [columns, rows]
  case rows =>
    rw [← rows]
    exact shaped.rows
  case columns =>
    rw [← columns]
    exact shaped.columns
  case off =>
    intro key off
    rw [given, zeros, if_neg off, Option.map_none]
  case unwritten =>
    intro key on others
    rw [given, zeros, if_pos on, filter_others others]
    rfl
  case last =>
    intro key x before after on split others
    rw [given, zeros, if_pos on, split, getLast?_filter_key others]
    rfl

def someSizes : Table UInt64 Unit := Table.ofList [(64, ()), (8, ())]

def someCounts : Table UInt32 Unit := Table.ofList [(2, ()), (1, ())]

/-- Calls of which one is off the axes and two are with one key. -/
def someCalls : List (Key × Float) := [(⟨64, 2⟩, 1.5), (⟨7, 1⟩, 9), (⟨64, 2⟩, 0.5)]

theorem runs_keep_last_writes_repeated :
    let start := zeroed someSizes.keys someCounts.keys
    (start.run someCalls).1 = [true, false, true] ∧
      (start.run someCalls).2.get? ⟨64, 2⟩ = some 0.5 ∧
        (start.run someCalls).2.get? ⟨8, 1⟩ = some 0 ∧
          (start.run someCalls).2.get? ⟨7, 1⟩ = none := by
  intro start
  have kept := runs_keep_last_writes someSizes someCounts someCalls
  have told : (start.run someCalls).1 = [true, false, true] := kept.answers.trans (by decide)
  have last := kept.last ⟨64, 2⟩ 0.5 [(⟨64, 2⟩, 1.5), (⟨7, 1⟩, 9)] [] (by decide) rfl nofun
  have unwritten := kept.unwritten ⟨8, 1⟩ (by decide) (by decide)
  exact ⟨told, last, unwritten, kept.off ⟨7, 1⟩ (by decide)⟩

end QueueBench.Matrix
