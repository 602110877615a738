import NodeMemory.Event
import NodeMemory.Proofs.JsonRoundTrip
import NodeMemory.Proofs.LastValues
/-!
# One event, one line

What is written for an event is one line, whatever is in its fields (`emit_line`): no character in
it ends a line, and it is read back as an object with the fields and the four members that are the
event's own. These say what the event is, whatever was passed under their names. A long message is
cut, and every other field is read as it was given. Nothing is written for a type that there is not.
-/

namespace NodeMemory

open JsonText

/-! ## The vocabulary -/

namespace EventKind

theorem mem_all (kind : EventKind) : kind ∈ all := by
  cases kind <;> decide

theorem ofName?_eq_some {text : String} {kind : EventKind} (h : ofName? text = some kind) : kind.name = text := by
  simpa using List.find?_some h

theorem ofName?_eq_none {text : String} (h : ofName? text = none) (kind : EventKind) : kind.name ≠ text := by
  simpa using List.find?_eq_none.1 h kind (mem_all kind)

end EventKind

namespace Event

/-! ## Messages -/

/-- The beginning of a long text, and how many characters are missing. -/
def cut (text : String) : String :=
  String.ofList (text.toList.take 200) ++ "...[truncated " ++ toString (text.length - 200) ++ " chars]"

/-- A field that is not kept whole. -/
def IsLong (name : String) (value : Json) : Prop := name = "message" ∧ ∃ text, value = .string text ∧ 200 < text.length

theorem truncate_of_le {text : String} (h : text.length ≤ 200) : truncate messageLimit text = text :=
  if_pos (show (text.toList.length : Int) ≤ 200 by rw [String.length_toList]; omega)

theorem truncate_of_lt {text : String} (h : 200 < text.length) : truncate messageLimit text = cut text := by
  have hmissing : toString ((text.length : Int) - 200) = toString (text.length - 200) := by
    rw [show (text.length : Int) - 200 = (text.length - 200 : Nat) by omega]
    rfl
  simp only [truncate, messageLimit, String.length_toList]
  rw [if_neg (by omega), if_neg (by decide), hmissing, cut]
  rfl

theorem shorten_eq_self {name : String} {value : Json} (h : ¬IsLong name value) : shorten name value = value := by
  unfold shorten
  split
  · next text =>
    split
    · next hname => rw [truncate_of_le (Nat.not_lt.1 fun hlt => h ⟨hname, text, rfl, hlt⟩)]
    · rfl
  · rfl

/-! ## Members -/

/-- What an event says of itself. -/
def own (kind : EventKind) (version : String) (now : Timestamp) : List (String × Json) :=
  [("event_type", .string kind.name), ("level", .string kind.level), ("utc_now", .string now.render),
    ("exporter_version", .string version)]

/-- The names that no field can take from an event. -/
def ownNames : List String := ["event_type", "level", "utc_now", "exporter_version"]

/-- The fields of an event as it carries them. -/
def given (fields : Keyed Json) : Keyed Json where
  entries := fields.entries.map fun (name, value) => (name, shorten name value)
  nodup := by
    rw [List.map_map]
    exact fields.nodup

theorem get?_given (fields : Keyed Json) (name : String) :
    (given fields).get? name = (fields.get? name).map (shorten name) :=
  Entries.find?_map_value shorten name fields.entries

/-- All members of an event's line. -/
def carried (kind : EventKind) (fields : Keyed Json) (version : String) (now : Timestamp) : Keyed Json :=
  (own kind version now).foldl (fun t m => t.insert m.1 m.2) (given fields)

theorem entries_carried (kind : EventKind) (fields : Keyed Json) (version : String) (now : Timestamp) :
    (carried kind fields version now).entries = (Event.mk kind fields.entries).members version now := rfl

section Carried
variable {kind : EventKind} {fields : Keyed Json} {version : String} {now : Timestamp}

theorem nodup_own (kind : EventKind) (version : String) (now : Timestamp) :
    ((own kind version now).map Prod.fst).Nodup :=
  show ownNames.Nodup by decide

theorem get?_carried (name : String) : (carried kind fields version now).get? name =
    (Entries.find? name (own kind version now)).or ((fields.get? name).map (shorten name)) := by
  rw [carried, Keyed.get?_foldl_insert (nodup_own kind version now), get?_given]

/-- A member is one of the event's own, or a field under a name that is none of these. -/
theorem mem_carried {name : String} {value : Json} (hm : (name, value) ∈ (carried kind fields version now).entries) :
    (name, value) ∈ own kind version now ∨ name ∉ ownNames ∧
      ∃ v, fields.get? name = some v ∧ shorten name v = value := by
  rw [Keyed.mem_entries_iff, get?_carried, Option.or_eq_some_iff, ← Entries.mem_iff_find? (nodup_own kind version now),
    ← Option.not_isSome_iff_eq_none, Entries.find?_isSome_iff, Option.map_eq_some_iff] at hm
  exact hm

theorem mem_names_carried (name : String) : name ∈ (carried kind fields version now).names ↔
    name ∈ fields.names ∨ name ∈ ownNames := by
  rw [← Keyed.contains_iff, Keyed.contains, get?_carried, Option.isSome_or, Option.isSome_map, Bool.or_eq_true,
    Entries.find?_isSome_iff, or_comm, ← Keyed.contains_iff, Keyed.contains]
  rfl

theorem numbers_shorten (name : String) (value : Json) : Json.numbers (shorten name value) = Json.numbers value := by
  cases value <;> rfl

theorem isFinite_carried (h : ∀ y ∈ Json.numbersOfMembers fields.entries, y.IsFinite) :
    ∀ y ∈ Json.numbersOfMembers (carried kind fields version now).entries, y.IsFinite := by
  intro y hy
  obtain ⟨⟨name, value⟩, hm, hy⟩ := Json.mem_numbersOfMembers.1 hy
  rcases mem_carried hm with hm | ⟨-, v, hv, rfl⟩
  · have hnone : Json.numbersOfMembers (own kind version now) = [] := rfl
    exact absurd (Json.mem_numbersOfMembers.2 ⟨_, hm, hy⟩) (hnone ▸ List.not_mem_nil)
  · rw [numbers_shorten] at hy
    exact h y (Json.mem_numbersOfMembers.2 ⟨_, Keyed.mem_entries_iff.2 hv, hy⟩)

/-! ## Reading a line -/

variable (kind fields version now) in
/-- What is read under a name of an event's line: the event's own values under the names that are its own, and else
the field that was passed. -/
inductive Reads : String → Content → Prop
  | kind : Reads "event_type" (.string kind.name)
  | level : Reads "level" (.string kind.level)
  | time : Reads "utc_now" (.string now.render)
  | version : Reads "exporter_version" (.string version)
  | message {text : String} : fields.get? "message" = some (.string text) → 200 < text.length →
      Reads "message" (.string (cut text))
  | field {name : String} {value : Json} {content : Content} : name ∉ ownNames → fields.get? name = some value →
      ¬IsLong name value → Carries content value → Reads name content

theorem reads_carried (h : ∀ y ∈ Json.numbersOfMembers fields.entries, y.IsFinite) {name : String} {value : Json}
    (hm : (name, value) ∈ (carried kind fields version now).entries) :
    Reads kind fields version now name (Json.content value) := by
  rcases mem_carried hm with hm | ⟨hname, v, hv, rfl⟩
  · simp only [own, List.mem_cons, Prod.mk.injEq, List.not_mem_nil, or_false] at hm
    rcases hm with ⟨rfl, rfl⟩ | ⟨rfl, rfl⟩ | ⟨rfl, rfl⟩ | ⟨rfl, rfl⟩
    · exact .kind
    · exact .level
    · exact .time
    · exact .version
  · by_cases hlong : IsLong name v
    · obtain ⟨rfl, text, rfl, hlt⟩ := hlong
      rw [shorten, if_pos rfl, truncate_of_lt hlt]
      exact .message hv hlt
    · rw [shorten_eq_self hlong]
      refine .field hname hv hlong (Json.carries_content v fun y hy => h y ?_)
      exact Json.mem_numbersOfMembers.2 ⟨_, Keyed.mem_entries_iff.2 hv, hy⟩

/-- The names in an event's line are those of the fields and the event's own, each once. -/
structure HasNames (fields : Keyed Json) (members : List (String × Content)) : Prop where
  nodup : (members.map Prod.fst).Nodup
  mem_iff : ∀ name, name ∈ members.map Prod.fst ↔ name ∈ fields.names ∨ name ∈ ownNames

variable (kind version now) in
theorem exists_members (h : ∀ y ∈ Json.numbersOfMembers fields.entries, y.IsFinite) :
    ∃ members, read? ((Event.mk kind fields.entries).line version now) = some (.object members) ∧
      HasNames fields members ∧ ∀ m ∈ members, Reads kind fields version now m.1 m.2 := by
  generalize ht : carried kind fields version now = t
  have hcontents : (Json.contentMembers t.entries).map Prod.fst = t.names := by
    rw [Json.contentMembers_eq, List.map_map]
    rfl
  have hperm := Sorting.sortBy_perm Json.nameLe (Json.contentMembers t.entries)
  have hnames := hcontents ▸ hperm.map Prod.fst
  refine ⟨Sorting.sortBy Json.nameLe (Json.contentMembers t.entries), ?_, ⟨?_, fun name => ?_⟩, fun m hm => ?_⟩
  · rw [line, ← entries_carried, ht, Json.read?_render (ht ▸ isFinite_carried h), Json.content]
  · exact hnames.nodup_iff.2 t.nodup
  · rw [hnames.mem_iff, ← ht, mem_names_carried]
  · have hm := hperm.mem_iff.1 hm
    rw [Json.contentMembers_eq] at hm
    obtain ⟨⟨name, value⟩, hmem, rfl⟩ := List.mem_map.1 hm
    exact reads_carried h (ht ▸ hmem)

end Carried

theorem emit_of_none {type : String} (h : EventKind.ofName? type = none) (fields : List (String × Json))
    (version : String) (now : Timestamp) : emit type fields version now = .error ("invalid event_type: " ++ type) := by
  rw [emit, h]
  rfl

theorem emit_of_some {type : String} {kind : EventKind} (h : EventKind.ofName? type = some kind)
    (fields : List (String × Json)) (version : String) (now : Timestamp) :
    emit type fields version now = .ok ((Event.mk kind fields).line version now ++ "\n") := by
  rw [emit, h]

/-- **One event, one line.** For a type that there is not nothing is written and the error names it. For any other
type one line is written: no character in it is below the blank, so the line feed that ends it is its only one,
and it is read back as an object with the fields and the event's own members. -/
theorem emit_line (type : String) {fields : Keyed Json} (version : String) (now : Timestamp)
    (h : ∀ y ∈ Json.numbersOfMembers fields.entries, y.IsFinite) :
    ((∀ kind : EventKind, kind.name ≠ type) ∧
        emit type fields.entries version now = .error ("invalid event_type: " ++ type)) ∨
      ∃ (kind : EventKind) (line : String) (members : List (String × Content)), kind.name = type ∧
        emit type fields.entries version now = .ok (line ++ "\n") ∧ (∀ c ∈ line.toList, 0x20 ≤ c.toNat) ∧
        read? line = some (.object members) ∧ HasNames fields members ∧
        ∀ m ∈ members, Reads kind fields version now m.1 m.2 := by
  cases hk : EventKind.ofName? type with
  | none => exact .inl ⟨EventKind.ofName?_eq_none hk, emit_of_none hk _ version now⟩
  | some kind =>
    obtain ⟨members, hread, hnames, hreads⟩ := exists_members kind version now h
    refine .inr ⟨kind, _, members, EventKind.ofName?_eq_some hk, emit_of_some hk _ version now, ?_, hread, hnames,
      hreads⟩
    rw [line, Json.render, String.toList_ofList]
    exact (Json.tidy_write _).visible

/-- A message of line feeds, a level that is not the event's, and a path in a list. -/
theorem emit_line_collectorFailed :
    let fields : Keyed Json :=
      ⟨[("message", .string (String.ofList (List.replicate 300 '\n'))), ("level", .integer 3),
        ("paths", .array [.shown .path "/proc/\"x", .number .zero])], by decide⟩
    ∃ (kind : EventKind) (line : String) (members : List (String × Content)), kind.name = "collector_failed" ∧
      emit "collector_failed" fields.entries "0.1.0" ⟨2024, 2, 29, 12, 0, 0, 1⟩ = .ok (line ++ "\n") ∧
      (∀ c ∈ line.toList, 0x20 ≤ c.toNat) ∧ read? line = some (.object members) ∧ HasNames fields members ∧
      ∀ m ∈ members, Reads kind fields "0.1.0" ⟨2024, 2, 29, 12, 0, 0, 1⟩ m.1 m.2 := by
  intro fields
  have hfinite : ∀ y ∈ Json.numbersOfMembers fields.entries, y.IsFinite := by decide
  exact (emit_line "collector_failed" "0.1.0" _ hfinite).resolve_left fun h => h.1 .collectorFailed rfl

end Event

end NodeMemory
