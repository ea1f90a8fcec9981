import QueueBench.Proofs.DocumentForms
import QueueBench.Proofs.DocumentMerge
import QueueBench.Proofs.NormalForms

set_option autoImplicit false

namespace QueueBench

open Json (natural member? normal tableOf)

namespace Json

/-- Of the members of two lists the later list decides. -/
theorem member?_append (name : String) (early late : List (String × Json)) :
    (object (early ++ late)).member? name =
      ((object late).member? name).or ((object early).member? name) := by
  simp only [member?, List.reverse_append, List.find?_append, Option.map_or]

theorem member?_entries (name : String) (t : Table String Json) :
    (object t.entries).member? name = t.get? name := by
  have answer := Table.get?_ofList t.entries name
  rw [Table.ofList_entries] at answer
  rw [answer, member?]
  simp only [beq_eq_decide]

theorem member?_filter_of_pos {name : String} {p : String → Bool} (kept : p name)
    (members : List (String × Json)) :
    (object (members.filter fun m => p m.1)).member? name = (object members).member? name := by
  have both : (fun m : String × Json => decide (p m.1 = true ∧ (m.1 == name) = true)) =
      fun m => m.1 == name := by
    funext m
    by_cases same : m.1 = name
    · simp [same, kept]
    · simp [same]
  rw [member?, member?, ← List.filter_reverse, List.find?_filter, both]

theorem member?_filter_of_neg {name : String} {p : String → Bool} (dropped : p name = false)
    (members : List (String × Json)) :
    (object (members.filter fun m => p m.1)).member? name = none := by
  rw [member?, Option.map_eq_none_iff, List.find?_eq_none]
  intro m member same
  have kept := (List.mem_filter.mp (List.mem_reverse.mp member)).2
  rw [beq_iff_eq.mp same, dropped] at kept
  cases kept

theorem member?_of_only? {name : String} {members : List (String × Json)} {v : Json}
    (single : ThroughputRecord.only? name members = some v) :
    (object members).member? name = some v := by
  rw [member?, ← List.head?_filter, List.filter_reverse,
    ThroughputRecord.only?_eq_some.mp single]
  rfl

end Json

theorem Json.naturalIn_eq_ok {bound n : Nat} {expected : String} {v : Json} :
    Json.naturalIn bound expected v = .ok n ↔
      ∃ w : UInt64, v = natural w ∧ w.toNat < bound ∧ n = w.toNat := by
  constructor
  · intro ok
    match v, ok with
    | .number (.natural w), ok =>
      simp only [Json.naturalIn, Json.naturalOf] at ok
      split at ok
      case isTrue small =>
        cases ok
        exact ⟨w, rfl, small, rfl⟩
      case isFalse => cases ok
  · rintro ⟨w, rfl, small, rfl⟩
    exact if_pos small

theorem Key.queueSizeIn_eq_ok {v : Json} {q : UInt64} :
    Key.queueSizeIn v = .ok q ↔ v = natural q := by
  simp only [Key.queueSizeIn, exceptMap_eq_ok, Json.naturalIn_eq_ok]
  constructor
  · rintro ⟨_, ⟨w, rfl, -, rfl⟩, rfl⟩
    rw [UInt64.ofNat_toNat]
  · rintro rfl
    exact ⟨q.toNat, ⟨q, rfl, q.toNat_lt, rfl⟩, UInt64.ofNat_toNat⟩

theorem Key.producerCountIn_eq_ok {v : Json} {p : UInt32} :
    Key.producerCountIn v = .ok p ↔ v = natural p.toUInt64 := by
  simp only [Key.producerCountIn, exceptMap_eq_ok, Json.naturalIn_eq_ok]
  constructor
  · rintro ⟨_, ⟨w, rfl, small, rfl⟩, rfl⟩
    congr 1
    rw [← UInt64.toNat_inj, UInt32.toNat_toUInt64, UInt32.toNat_ofNat']
    exact (Nat.mod_eq_of_lt small).symm
  · rintro rfl
    exact ⟨p.toNat, ⟨p.toUInt64, rfl, p.toNat_lt, rfl⟩, UInt32.ofNat_toNat⟩

/-- A key is found among its own members. -/
theorem Key.ofMembers_members (k : Key) : Key.ofMembers k.members = .ok k := by
  have queueSize : Key.queueSizeIn (natural k.queueSize) = .ok k.queueSize :=
    Key.queueSizeIn_eq_ok.mpr rfl
  have producers : Key.producerCountIn (natural k.producerCount.toUInt64) = .ok k.producerCount :=
    Key.producerCountIn_eq_ok.mpr rfl
  unfold Key.ofMembers Key.members
  rw [Key.gather, if_pos rfl, queueSize]
  show Key.gather _ (some k.queueSize) none = _
  rw [Key.gather, if_neg (by decide), if_pos rfl, producers]
  rfl

namespace ThroughputRecord

/-- What a record keeps of the members of the object it is read from. -/
structure Keeps (members : List (String × Json)) (r : ThroughputRecord) : Prop where
  queueSize : only? "queueSize" members = some (natural r.key.queueSize)
  producerCount : only? "producerCount" members = some (natural r.key.producerCount.toUInt64)
  successfulPops : only? "successfulPops" members = some (natural r.successfulPops)
  own : ∀ name ∈ ownFields, r.extra.get? name = none
  rest : ∀ name ∉ ownFields,
    r.extra.get? name = ((Json.object members).member? name).map Json.normal

theorem ofJson?_eq_some {members : List (String × Json)} {r : ThroughputRecord} :
    ofJson? (.object members) = some r ↔
      only? "queueSize" members = some (natural r.key.queueSize) ∧
        only? "producerCount" members = some (natural r.key.producerCount.toUInt64) ∧
          only? "successfulPops" members = some (natural r.successfulPops) ∧
            r.extra = tableOf (members.filter fun m => !ownFields.contains m.1) := by
  obtain ⟨⟨queueSize, producerCount⟩, pops, extra⟩ := r
  simp only [ofJson?, bind, Option.bind_eq_some_iff, toOption_eq_some, Key.queueSizeIn_eq_ok,
    Key.producerCountIn_eq_ok, Json.naturalIn_eq_ok]
  constructor
  · rintro ⟨_, single, q, rfl, _, single', p, rfl, _, single'', _, ⟨w, rfl, -, rfl⟩, made⟩
    cases made
    rw [UInt64.ofNat_toNat]
    exact ⟨single, single', single'', rfl⟩
  · rintro ⟨single, single', single'', same⟩
    refine ⟨_, single, _, rfl, _, single', _, rfl, _, single'', pops.toNat,
      ⟨pops, rfl, pops.toNat_lt, rfl⟩, ?_⟩
    rw [same, UInt64.ofNat_toNat]
    rfl

theorem keeps_of_ofJson? {members : List (String × Json)} {r : ThroughputRecord}
    (shown : ofJson? (.object members) = some r) : r.Keeps members := by
  obtain ⟨queueSize, producerCount, pops, extra⟩ := ofJson?_eq_some.mp shown
  refine ⟨queueSize, producerCount, pops, fun name own => ?_, fun name other => ?_⟩
  · have dropped : (!ownFields.contains name) = false := by simp [own]
    rw [extra, Json.get?_tableOf, @Json.member?_filter_of_neg name (!ownFields.contains ·) dropped]
    rfl
  · have kept : (!ownFields.contains name) = true := by simp [other]
    rw [extra, Json.get?_tableOf, @Json.member?_filter_of_pos name (!ownFields.contains ·) kept]

def ownMembers (r : ThroughputRecord) : List (String × Json) :=
  r.key.members ++ [("successfulPops", natural r.successfulPops)]

theorem toJson_eq (r : ThroughputRecord) :
    r.toJson = .object (r.ownMembers ++ r.extra.entries) := by
  rw [toJson, ownMembers, List.append_assoc]
  rfl

theorem member?_ownMembers {r : ThroughputRecord} {name : String} (other : name ∉ ownFields) :
    (Json.object r.ownMembers).member? name = none := by
  rw [Json.member?, Option.map_eq_none_iff, List.find?_eq_none]
  intro m member same
  have names : m.1 ∈ ownFields := by
    simp only [ownMembers, Key.members, List.mem_reverse, List.mem_append, List.mem_cons,
      List.not_mem_nil, or_false] at member
    rcases member with (rfl | rfl) | rfl <;> simp [ownFields]
  exact other (beq_iff_eq.mp same ▸ names)

/-- A record written as an object shows what the object it was read from shows. -/
theorem Keeps.normal {members : List (String × Json)} {r : ThroughputRecord}
    (keeps : r.Keeps members) : r.toJson.normal = (Json.object members).normal := by
  have same : tableOf (r.ownMembers ++ r.extra.entries) = tableOf members := by
    -- names of own fields are answered by the fields, all others by the entries
    refine Table.ext_get? fun name => ?_
    rw [Json.get?_tableOf, Json.get?_tableOf, Json.member?_append, Json.member?_entries]
    by_cases own : name ∈ ownFields
    · rw [keeps.own name own, Option.none_or]
      congr 1
      simp only [ownFields, List.mem_cons, List.not_mem_nil, or_false] at own
      rcases own with rfl | rfl | rfl
      · exact (Json.member?_of_only? keeps.queueSize).symm
      · exact (Json.member?_of_only? keeps.producerCount).symm
      · exact (Json.member?_of_only? keeps.successfulPops).symm
    · rw [keeps.rest name own, member?_ownMembers own, Option.or_none, Option.map_map]
      congr 1
      funext v
      exact Json.normal_normal v
  rw [toJson_eq, Json.normal_object, Json.normal_object, same]

/-- The entries of a record are normal forms under other names than those of its own fields. -/
structure Proper (r : ThroughputRecord) : Prop where
  other : ∀ e ∈ r.extra.entries, e.1 ∉ ownFields
  fixed : ∀ e ∈ r.extra.entries, e.2.normal = e.2

theorem proper_of_ofJson? {members : List (String × Json)} {r : ThroughputRecord}
    (shown : ofJson? (.object members) = some r) : r.Proper := by
  have keeps := keeps_of_ofJson? shown
  obtain ⟨-, -, -, extra⟩ := ofJson?_eq_some.mp shown
  refine ⟨fun e member own => ?_, ?_⟩
  · have found := (r.extra.get?_eq_some_iff e.1 e.2).mpr member
    rw [keeps.own e.1 own] at found
    cases found
  · rw [extra]
    exact Json.tableOf_fixed

theorem only?_toJson {r : ThroughputRecord} (proper : r.Proper) {name : String} {v : Json}
    (own : name ∈ ownFields) (single : only? name r.ownMembers = some v) :
    only? name (r.ownMembers ++ r.extra.entries) = some v := by
  have none : r.extra.entries.filter (fun m => m.1 == name) = [] := by
    refine List.filter_eq_nil_iff.mpr fun e member same => ?_
    exact proper.other e member (beq_iff_eq.mp same ▸ own)
  rw [only?_eq_some, List.filter_append, none, List.append_nil]
  exact only?_eq_some.mp single

/-- A record written as an object is shown by it. -/
theorem ofJson?_toJson {r : ThroughputRecord} (proper : r.Proper) : ofJson? r.toJson = some r := by
  rw [toJson_eq, ofJson?_eq_some]
  refine ⟨only?_toJson proper (by decide) rfl, only?_toJson proper (by decide) rfl,
    only?_toJson proper (by decide) rfl, ?_⟩
  have dropped : r.ownMembers.filter (fun m => !ownFields.contains m.1) = [] := rfl
  have kept : r.extra.entries.filter (fun m => !ownFields.contains m.1) = r.extra.entries := by
    refine List.filter_eq_self.mpr fun e member => ?_
    simpa using proper.other e member
  rw [List.filter_append, dropped, kept, List.nil_append, Json.tableOf_entries proper.fixed]

end ThroughputRecord

namespace ResultPayload

/-- What a payload keeps of the value it is read from: a batch stays a list of as many records, and
a single record stays an object. -/
inductive Keeps : Json → ResultPayload → Prop where
  | many {items : List Json} {rs : List ThroughputRecord}
      (each : List.Forall₂ (fun v r => ∃ members, v = .object members ∧
        ThroughputRecord.Keeps members r) items rs) : Keeps (.array items) (.many rs)
  | one {members : List (String × Json)} {r : ThroughputRecord}
      (keeps : ThroughputRecord.Keeps members r) : Keeps (.object members) (.one r)

/-- A payload is shown by an object that shows a record, or by a list of such objects. -/
theorem ofJson?_cases {v : Json} {payload : ResultPayload} (shown : ofJson? v = some payload) :
    (∃ items rs, v = .array items ∧ payload = .many rs ∧
        List.Forall₂ (fun w r => ThroughputRecord.ofJson? w = some r) items rs) ∨
      ∃ members r, v = .object members ∧ payload = .one r ∧
        ThroughputRecord.ofJson? (.object members) = some r := by
  match v, shown with
  | .array items, shown =>
    obtain ⟨rs, each, rfl⟩ := Option.map_eq_some_iff.mp shown
    exact .inl ⟨items, rs, rfl, rfl, mapM_eq_some.mp each⟩
  | .object members, shown =>
    obtain ⟨r, single, rfl⟩ := Option.map_eq_some_iff.mp shown
    exact .inr ⟨members, r, rfl, rfl, single⟩

end ResultPayload

namespace ThroughputRecord

theorem object_of_ofJson? {v : Json} {r : ThroughputRecord} (shown : ofJson? v = some r) :
    ∃ members, v = .object members ∧ ofJson? (.object members) = some r := by
  match v, shown with
  | .object members, shown => exact ⟨members, rfl, shown⟩

theorem normal_toJson {v : Json} {r : ThroughputRecord} (shown : ofJson? v = some r) :
    r.toJson.normal = v.normal := by
  obtain ⟨members, rfl, shown⟩ := object_of_ofJson? shown
  exact (keeps_of_ofJson? shown).normal

theorem ofJson?_toJson_of_ofJson? {v : Json} {r : ThroughputRecord} (shown : ofJson? v = some r) :
    ofJson? r.toJson = some r := by
  obtain ⟨members, rfl, shown⟩ := object_of_ofJson? shown
  exact ofJson?_toJson (proper_of_ofJson? shown)

section Batches

variable {items : List Json} {rs : List ThroughputRecord}
  (each : List.Forall₂ (fun v r => ofJson? v = some r) items rs)
include each

theorem map_normal_toJson : (rs.map toJson).map Json.normal = items.map Json.normal := by
  induction each with
  | nil => rfl
  | cons first _ ih => rw [List.map_cons, List.map_cons, List.map_cons, normal_toJson first, ih]

theorem forall₂_toJson : List.Forall₂ (fun v r => ofJson? v = some r) (rs.map toJson) rs := by
  induction each with
  | nil => exact .nil
  | cons first _ ih => exact .cons (ofJson?_toJson_of_ofJson? first) ih

end Batches

end ThroughputRecord

namespace ResultPayload

variable {v : Json} {payload : ResultPayload} (shown : ofJson? v = some payload)
include shown

theorem keeps_of_ofJson? : Keeps v payload := by
  rcases ofJson?_cases shown with ⟨items, rs, rfl, rfl, each⟩ | ⟨members, r, rfl, rfl, single⟩
  · refine .many (each.imp fun w r shown => ?_)
    obtain ⟨members, rfl, shown⟩ := ThroughputRecord.object_of_ofJson? shown
    exact ⟨members, rfl, ThroughputRecord.keeps_of_ofJson? shown⟩
  · exact .one (ThroughputRecord.keeps_of_ofJson? single)

theorem normal_toJson : payload.toJson.normal = v.normal := by
  rcases ofJson?_cases shown with ⟨items, rs, rfl, rfl, each⟩ | ⟨members, r, rfl, rfl, single⟩
  · rw [toJson, Json.normal_array, Json.normal_array, ThroughputRecord.map_normal_toJson each]
  · exact ThroughputRecord.normal_toJson single

theorem ofJson?_toJson : ofJson? payload.toJson = some payload := by
  rcases ofJson?_cases shown with ⟨items, rs, rfl, rfl, each⟩ | ⟨members, r, rfl, rfl, single⟩
  · exact Option.map_eq_some_iff.mpr
      ⟨rs, mapM_eq_some.mpr (ThroughputRecord.forall₂_toJson each), rfl⟩
  · exact Option.map_eq_some_iff.mpr
      ⟨r, ThroughputRecord.ofJson?_toJson_of_ofJson? single, rfl⟩

end ResultPayload

end QueueBench
