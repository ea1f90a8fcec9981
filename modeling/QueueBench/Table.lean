set_option autoImplicit false

namespace QueueBench

/-- A finite map whose entries stand in strictly ascending key order. -/
structure Table (κ : Type) [Ord κ] (α : Type) where
  entries : List (κ × α)
  ascending : entries.Pairwise (fun a b => compare a.1 b.1 = .lt)

namespace Table

variable {κ α β : Type} [Ord κ]

/-- Puts a value into an ascending list; an equal key is replaced. -/
def putEntry (k : κ) (v : α) : List (κ × α) → List (κ × α)
  | [] => [(k, v)]
  | e :: rest =>
    match compare k e.1 with
    | .lt => (k, v) :: e :: rest
    | .eq => (k, v) :: rest
    | .gt => e :: putEntry k v rest

theorem mem_putEntry {k : κ} {v : α} {x : κ × α} {es : List (κ × α)}
    (h : x ∈ putEntry k v es) : x = (k, v) ∨ x ∈ es := by
  induction es with
  | nil => simpa [putEntry] using h
  | cons e rest ih =>
    simp only [putEntry] at h
    split at h <;> simp only [List.mem_cons] at h ⊢
    · exact h
    · rcases h with h | h
      · exact .inl h
      · exact .inr (.inr h)
    · rcases h with h | h
      · exact .inr (.inl h)
      · rcases ih h with h | h
        · exact .inl h
        · exact .inr (.inr h)

theorem ascending_putEntry [Std.TransOrd κ] {k : κ} {v : α} {es : List (κ × α)}
    (h : es.Pairwise (fun a b => compare a.1 b.1 = .lt)) :
    (putEntry k v es).Pairwise (fun a b => compare a.1 b.1 = .lt) := by
  induction es with
  | nil => simp [putEntry]
  | cons e rest ih =>
    obtain ⟨first, later⟩ := List.pairwise_cons.1 h
    simp only [putEntry]
    split
    · rename_i below
      refine List.pairwise_cons.2 ⟨fun x hx => ?_, h⟩
      rcases List.mem_cons.1 hx with rfl | hx
      · exact below
      · exact Std.TransCmp.lt_trans below (first x hx)
    · rename_i same
      exact List.pairwise_cons.2 ⟨fun x hx => Std.TransCmp.lt_of_eq_of_lt same (first x hx), later⟩
    · rename_i above
      refine List.pairwise_cons.2 ⟨fun x hx => ?_, ih later⟩
      rcases mem_putEntry hx with rfl | hx
      · exact Std.OrientedCmp.lt_of_gt above
      · exact first x hx

theorem find?_putEntry_self [Std.TransOrd κ] (k : κ) (v : α) (es : List (κ × α)) :
    (putEntry k v es).find? (fun e => compare k e.1 == .eq) = some (k, v) := by
  induction es with
  | nil => simp [putEntry, Std.ReflCmp.compare_self]
  | cons e rest ih =>
    simp only [putEntry]
    split
    · simp [Std.ReflCmp.compare_self]
    · simp [Std.ReflCmp.compare_self]
    · rename_i above
      simp [above, ih]

theorem find?_putEntry_of_ne [Std.TransOrd κ] {k l : κ} (apart : compare l k ≠ .eq) (v : α)
    (es : List (κ × α)) :
    (putEntry k v es).find? (fun e => compare l e.1 == .eq) =
      es.find? (fun e => compare l e.1 == .eq) := by
  have apart' : (compare l k == .eq) = false := by simpa using apart
  induction es with
  | nil => simp [putEntry, apart']
  | cons e rest ih =>
    simp only [putEntry]
    split
    · simp [apart']
    · rename_i same
      have other : (compare l e.1 == .eq) = false := by
        rw [beq_eq_false_iff_ne]
        intro equal
        exact apart (Std.TransCmp.eq_trans equal (Std.OrientedCmp.eq_symm same))
      simp [apart', other]
    · simp only [List.find?_cons, ih]

def empty : Table κ α := ⟨[], List.Pairwise.nil⟩

def insert [Std.TransOrd κ] (t : Table κ α) (k : κ) (v : α) : Table κ α :=
  ⟨putEntry k v t.entries, ascending_putEntry t.ascending⟩

def get? (t : Table κ α) (k : κ) : Option α :=
  (t.entries.find? fun e => compare k e.1 == .eq).map (·.2)

@[simp] theorem get?_empty (k : κ) : (empty : Table κ α).get? k = none := rfl

@[simp] theorem get?_insert_self [Std.TransOrd κ] (t : Table κ α) (k : κ) (v : α) :
    (t.insert k v).get? k = some v := by
  simp [get?, insert, find?_putEntry_self]

theorem get?_insert_of_ne [Std.TransOrd κ] {k l : κ} (apart : compare l k ≠ .eq) (t : Table κ α)
    (v : α) : (t.insert k v).get? l = t.get? l := by
  simp [get?, insert, find?_putEntry_of_ne apart]

/-- Sets the value of a key that has none yet. -/
def insertNew [Std.TransOrd κ] (t : Table κ α) (k : κ) (v : α) : Table κ α :=
  match t.get? k with
  | some _ => t
  | none => t.insert k v

/-- Replaces a key's value by a function of what it was. -/
def update [Std.TransOrd κ] (t : Table κ α) (k : κ) (f : Option α → α) : Table κ α :=
  t.insert k (f (t.get? k))

/-- The table of a list of pairs; of two values of one key the later stays. -/
def ofList [Std.TransOrd κ] (pairs : List (κ × α)) : Table κ α :=
  pairs.foldl (fun t e => t.insert e.1 e.2) empty

def keys (t : Table κ α) : List κ := t.entries.map (·.1)

def values (t : Table κ α) : List α := t.entries.map (·.2)

def size (t : Table κ α) : Nat := t.entries.length

def isEmpty (t : Table κ α) : Bool := t.entries.isEmpty

def mapValues (f : α → β) (t : Table κ α) : Table κ β :=
  ⟨t.entries.map fun e => (e.1, f e.2), List.pairwise_map.2 t.ascending⟩

instance : EmptyCollection (Table κ α) := ⟨empty⟩

instance : Inhabited (Table κ α) := ⟨empty⟩

@[ext] theorem ext {s t : Table κ α} (h : s.entries = t.entries) : s = t := by
  cases s; cases t; simp_all

instance [DecidableEq κ] [DecidableEq α] : DecidableEq (Table κ α) := fun s t =>
  decidable_of_iff (s.entries = t.entries) ⟨ext, fun h => h ▸ rfl⟩

end Table

end QueueBench
