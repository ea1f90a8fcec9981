import QueueBench.Proofs.KeptRecords
import QueueBench.Proofs.WrittenValues

set_option autoImplicit false

namespace QueueBench

open Json.Reader (documentRoom)

namespace ThroughputRecord

open Json (Readable)

/-- The members of a record are numbers and normal forms of what it is read from. -/
theorem value_cases {members : List (String × Json)} {r : ThroughputRecord}
    (shown : ofJson? (.object members) = some r) {m : String × Json}
    (member : m ∈ r.ownMembers ++ r.extra.entries) :
    (∃ n, m.2 = Json.natural n) ∨ ∃ w, (m.1, w) ∈ members ∧ m.2 = w.normal := by
  obtain ⟨-, -, -, extra⟩ := ofJson?_eq_some.mp shown
  rcases List.mem_append.mp member with own | entry
  · simp only [ownMembers, Key.members, List.mem_append, List.mem_cons, List.not_mem_nil,
      or_false] at own
    rcases own with (rfl | rfl) | rfl <;> exact .inl ⟨_, rfl⟩
  · rw [extra] at entry
    obtain ⟨w, inside, same⟩ := Json.mem_tableOf entry
    exact .inr ⟨w, List.mem_of_mem_filter inside, same⟩

theorem readable_toJson {room : Nat} {v : Json} {r : ThroughputRecord}
    (shown : ofJson? v = some r) (readable : Readable room v) : Readable room r.toJson := by
  obtain ⟨members, rfl, shown⟩ := object_of_ofJson? shown
  cases readable with
  | object inner =>
    rw [toJson_eq]
    refine .object fun m member => ?_
    rcases value_cases shown member with ⟨n, same⟩ | ⟨w, inside, same⟩ <;> rw [same]
    · exact .natural n
    · exact (inner _ inside).normal

theorem forall_map_toJson {P : Json → Prop} {items : List Json} {rs : List ThroughputRecord}
    (kept : ∀ {v r}, ofJson? v = some r → P v → P r.toJson)
    (each : List.Forall₂ (fun v r => ofJson? v = some r) items rs)
    (all : ∀ v ∈ items, P v) : ∀ w ∈ rs.map toJson, P w := by
  induction each with
  | nil => simp
  | cons first _ ih =>
    obtain ⟨here, later⟩ := List.forall_mem_cons.mp all
    exact List.forall_mem_cons.mpr ⟨kept first here, ih later⟩

end ThroughputRecord

namespace ResultPayload

open ThroughputRecord (forall_map_toJson)

variable {v : Json} {payload : ResultPayload} (shown : ofJson? v = some payload)
include shown

theorem readable_toJson {room : Nat} (readable : Json.Readable room v) :
    Json.Readable room payload.toJson := by
  rcases ofJson?_cases shown with ⟨items, rs, rfl, rfl, each⟩ | ⟨members, r, rfl, rfl, single⟩
  · cases readable with
    | array inner => exact .array (forall_map_toJson ThroughputRecord.readable_toJson each inner)
  · exact ThroughputRecord.readable_toJson single readable

end ResultPayload

namespace ThroughputDocument

open Json (Readable ReadsBack compact natural)

/-- A description is written as the normal form of what it is read from, null if there is none. -/
theorem getD_descriptionOf (v : Json) : (descriptionOf v).getD .null = v.normal := by
  unfold descriptionOf
  split
  case isTrue null =>
    cases v with
    | null => rfl
    | _ => cases null
  case isFalse => rfl

theorem isNull_normal (v : Json) : v.normal.isNull = v.isNull := by
  cases v <;> simp [Json.normal, Json.isNull]

theorem descriptionOf_normal (v : Json) : descriptionOf v.normal = descriptionOf v := by
  unfold descriptionOf
  rw [isNull_normal, Json.normal_normal]

/-- The member that tells about the host, null if there is none. -/
def hostMember (members : List (String × Json)) : Json :=
  ((Json.object members).member? "cpuInfo").getD .null

variable {members : List (String × Json)}

theorem cpuInfo_of_describes {description : Option Json}
    (describes : Describes members description) :
    description = descriptionOf (hostMember members) := by
  unfold hostMember
  rcases describes with ⟨rfl, others⟩ | ⟨w, single, rfl⟩
  · have absent : (Json.object members).member? "cpuInfo" = none := by
      rw [Json.member?, Option.map_eq_none_iff, List.find?_eq_none]
      intro m member same
      exact others m (List.mem_reverse.mp member) (beq_iff_eq.mp same)
    rw [absent]
    rfl
  · rw [Json.member?_of_only? single]
    rfl

theorem readable_hostMember {room : Nat} (inner : ∀ m ∈ members, Readable room m.2) :
    Readable room (hostMember members) := by
  unfold hostMember
  cases found : (Json.object members).member? "cpuInfo" with
  | none => exact .null
  | some v => exact inner _ (Json.mem_of_member? found)

section Parts

variable {v w : Json} {results : ResultPayload} (shown : ResultPayload.ofJson? v = some results)

/-- The object that a document is written as. -/
theorem toJson_described : (⟨results, descriptionOf w⟩ : ThroughputDocument).toJson =
    .object [("benchmarkResults", results.toJson), ("cpuInfo", w.normal)] := by
  rw [toJson, getD_descriptionOf]

include shown

theorem normal_toJson : (⟨results, descriptionOf w⟩ : ThroughputDocument).toJson.normal =
    (Json.object [("benchmarkResults", v), ("cpuInfo", w)]).normal := by
  rw [toJson_described, Json.normal, Json.normal]
  simp only [Json.normalMembers, ResultPayload.normal_toJson shown, Json.normal_normal]

theorem shownBy_toJson : ShownBy (⟨results, descriptionOf w⟩ : ThroughputDocument).toJson
    ⟨results, descriptionOf w⟩ := by
  rw [toJson_described]
  refine .object rfl (ResultPayload.ofJson?_toJson shown) (.inr ⟨w.normal, rfl, ?_⟩)
  rw [descriptionOf_normal]

/-- What is written nests no deeper than what was read. -/
theorem readable_toJson {room : Nat}
    (found : (Json.object members).member? "benchmarkResults" = some v)
    (readable : Readable room (.object members)) :
    Readable room (⟨results, descriptionOf (hostMember members)⟩ : ThroughputDocument).toJson := by
  cases readable with
  | object inner =>
    rw [toJson_described]
    refine .object fun m member => ?_
    simp only [List.mem_cons, List.not_mem_nil, or_false] at member
    rcases member with rfl | rfl
    · exact ResultPayload.readable_toJson shown (inner _ (Json.mem_of_member? found))
    · exact (readable_hostMember inner).normal

end Parts

/-- A document in object form keeps the value of its results, in normal form, and the description of
the host; its written form is read back as the same tree and the same document, as far as doubles
are read back. -/
theorem pass_through_is_lossless {bytes : Json.Bytes} {d : ThroughputDocument}
    (tree : Json.parse bytes = .ok (.object members)) (document : parse bytes = .ok d)
    (exact : ∀ x ∈ d.toJson.doubles, ReadsBack x) :
    ∃ results, (Json.object members).member? "benchmarkResults" = some results ∧
      ResultPayload.Keeps results d.results ∧
      d.toJson.normal =
        (Json.object [("benchmarkResults", results), ("cpuInfo", hostMember members)]).normal ∧
      Json.parse d.toJson.compact.toUTF8.data.toList = .ok d.toJson ∧
      parse d.toJson.compact.toUTF8.data.toList = .ok d := by
  have shows := (parse_of_tree tree).mp document
  obtain ⟨rest, read, -⟩ := Json.Reader.run_eq_ok.mp tree
  have readable := Json.readable_of_value bytes _ rest read
  cases shows with
  | object single shown described =>
    obtain rfl := cpuInfo_of_describes described
    have found := Json.member?_of_only? single
    have written := Json.parse_compact (readable_toJson shown found readable) exact
    exact ⟨_, found, ResultPayload.keeps_of_ofJson? shown, normal_toJson shown, written,
      (parse_of_tree written).mpr (shownBy_toJson shown)⟩

def notedRecord : Json :=
  .object [("note", .null), ("queueSize", natural 4), ("producerCount", natural 2),
    ("note", .object [("mean", .number (.double 0.5))]), ("successfulPops", natural 7)]

def noted : Json := .object [("benchmarkResults", .array [notedRecord]), ("host", .boolean true)]

def notedDocument : ThroughputDocument :=
  ⟨.many [⟨⟨4, 2⟩, 7, Table.ofList [("note", .object [("mean", .number (.double 0.5))])]⟩], none⟩

theorem parse_noted : Json.parse noted.compact.toUTF8.data.toList = .ok noted := by
  have record : Readable 125 notedRecord := by
    refine .object ?_
    simp only [List.forall_mem_cons, List.not_mem_nil, false_implies, implies_true, and_true]
    exact ⟨.null, .natural 4, .natural 2, .object (by simpa using .double 0.5), .natural 7⟩
  refine Json.parse_compact (.object ?_) ?_
  · simp only [List.forall_mem_cons, List.not_mem_nil, false_implies, implies_true, and_true]
    exact ⟨.array (by simpa using record), .boolean true⟩
  · have doubles : noted.doubles = [0.5] := rfl
    rw [doubles, List.forall_mem_singleton]
    exact Json.Reader.readsBack_half

theorem parse_noted_document : parse noted.compact.toUTF8.data.toList = .ok notedDocument :=
  (parse_of_tree parse_noted).mpr (.object rfl rfl (.inl ⟨rfl, by decide⟩))

theorem exact_notedDocument : ∀ x ∈ notedDocument.toJson.doubles, ReadsBack x := by
  have doubles : notedDocument.toJson.doubles = [0.5] := by decide +kernel
  rw [doubles, List.forall_mem_singleton]
  exact Json.Reader.readsBack_half

theorem pass_through_is_lossless_repeated :
    Json.parse noted.compact.toUTF8.data.toList = .ok noted ∧
      parse noted.compact.toUTF8.data.toList = .ok notedDocument ∧
        (∀ x ∈ notedDocument.toJson.doubles, ReadsBack x) ∧
          ∃ results, noted.member? "benchmarkResults" = some results ∧
            ResultPayload.Keeps results notedDocument.results ∧
            notedDocument.toJson.normal =
              (Json.object [("benchmarkResults", results), ("cpuInfo", .null)]).normal ∧
            Json.parse notedDocument.toJson.compact.toUTF8.data.toList = .ok notedDocument.toJson ∧
            parse notedDocument.toJson.compact.toUTF8.data.toList = .ok notedDocument :=
  ⟨parse_noted, parse_noted_document, exact_notedDocument,
    pass_through_is_lossless parse_noted parse_noted_document exact_notedDocument⟩

end ThroughputDocument

end QueueBench
