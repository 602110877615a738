import NodeMemory.Proofs.JsonRoundTrip
import NodeMemory.Report
/-!
# What a report holds

A report is read back as what it was made of (`render_read_back`): what is known of the pass, and
under the name of each subsystem its records by node and name, where records with the same node and
name stay as they were. Each record is read as its four fields and nothing else.
-/

namespace NodeMemory

open JsonText

/-! ## Values that are only shown -/

namespace Json

mutual

/-- The values in a value that have no place in a report. -/
def foreigns : Json → List Foreign
  | shown what _ => [what]
  | array items => foreignsOfItems items
  | object members => foreignsOfMembers members
  | _ => []

def foreignsOfItems : List Json → List Foreign
  | [] => []
  | x :: xs => foreigns x ++ foreignsOfItems xs

def foreignsOfMembers : List (String × Json) → List Foreign
  | [] => []
  | (_, x) :: rest => foreigns x ++ foreignsOfMembers rest

end

theorem foreignsOfItems_eq_nil {items : List Json} : foreignsOfItems items = [] ↔ ∀ x ∈ items, foreigns x = [] := by
  induction items with
  | nil => simp [foreignsOfItems]
  | cons x xs ih => simp [foreignsOfItems, ih]

theorem foreignsOfMembers_eq_nil {members : List (String × Json)} :
    foreignsOfMembers members = [] ↔ ∀ m ∈ members, foreigns m.2 = [] := by
  induction members with
  | nil => simp [foreignsOfMembers]
  | cons m rest ih => simp [foreignsOfMembers, ih]

theorem firstForeign_eq_none {found : List (Option Foreign)} (h : ∀ f ∈ found, f = none) :
    firstForeign found = none := by
  induction found with
  | nil => rfl
  | cons f found ih =>
    obtain ⟨rfl, hfound⟩ := List.forall_mem_cons.1 h
    exact ih hfound

mutual

theorem foreign?_eq_none : (x : Json) → foreigns x = [] → foreign? x = none
  | null, _ => rfl
  | bool _, _ => rfl
  | integer _, _ => rfl
  | number _, _ => rfl
  | string _, _ => rfl
  | shown _ _, h => by cases h
  | array items, h => firstForeign_eq_none (foreignItems_eq_none items h)
  | object members, h => by
    refine firstForeign_eq_none fun f hf => ?_
    obtain ⟨m, hm, rfl⟩ := List.mem_map.1 hf
    exact foreignMembers_eq_none members h m ((Sorting.sortBy_perm _ _).mem_iff.1 hm)

theorem foreignItems_eq_none : (items : List Json) → foreignsOfItems items = [] → ∀ f ∈ foreignItems items, f = none
  | [], _ => by simp [foreignItems]
  | x :: xs, h => by
    obtain ⟨hx, hxs⟩ := List.append_eq_nil_iff.1 h
    exact List.forall_mem_cons.2 ⟨foreign?_eq_none x hx, foreignItems_eq_none xs hxs⟩

theorem foreignMembers_eq_none : (members : List (String × Json)) → foreignsOfMembers members = [] →
    ∀ m ∈ foreignMembers members, m.2 = none
  | [], _ => by simp [foreignMembers]
  | (_, x) :: rest, h => by
    obtain ⟨hx, hrest⟩ := List.append_eq_nil_iff.1 h
    exact List.forall_mem_cons.2 ⟨foreign?_eq_none x hx, foreignMembers_eq_none rest hrest⟩

end

end Json

/-! ## The values of a report -/

namespace Report

/-- The subsystems in a report, each with its records in their order. -/
def parts (subsystems : Keyed (List Record)) : List (String × Json) :=
  subsystems.entries.map fun entry => (entry.1, .array ((arrange entry.2).map ofRecord))

theorem document_eq (subsystems : Keyed (List Record)) (about : List (String × Json)) :
    document subsystems about = .object [("meta", .object about), ("records", .object (parts subsystems))] := rfl

theorem mem_numbersOfItems_arrange {y : Binary64} {records : List Record} :
    y ∈ Json.numbersOfItems ((arrange records).map ofRecord) ↔ ∃ r ∈ records, r.value = y := by
  simp only [Json.mem_numbersOfItems, List.mem_map, arrange, (Sorting.sortBy_perm _ _).mem_iff]
  constructor
  · rintro ⟨_, ⟨r, hr, rfl⟩, hy⟩
    exact ⟨r, hr, by simpa [ofRecord, Json.numbers, Json.numbersOfMembers, eq_comm] using hy⟩
  · rintro ⟨r, hr, rfl⟩
    exact ⟨_, ⟨r, hr, rfl⟩, by simp [ofRecord, Json.numbers, Json.numbersOfMembers]⟩

theorem mem_numbers_document {y : Binary64} {subsystems : Keyed (List Record)} {about : List (String × Json)} :
    y ∈ Json.numbers (document subsystems about) ↔
      y ∈ Json.numbersOfMembers about ∨ ∃ entry ∈ subsystems.entries, ∃ r ∈ entry.2, r.value = y := by
  simp [document_eq, parts, Json.numbers, Json.numbersOfMembers, Json.mem_numbersOfMembers, mem_numbersOfItems_arrange]

theorem foreigns_records (records : List Record) : Json.foreigns (.array (records.map ofRecord)) = [] := by
  rw [Json.foreigns, Json.foreignsOfItems_eq_nil]
  intro x hx
  obtain ⟨r, -, rfl⟩ := List.mem_map.1 hx
  rfl

theorem foreigns_document (subsystems : Keyed (List Record)) (about : List (String × Json)) :
    Json.foreigns (document subsystems about) = Json.foreignsOfMembers about := by
  have hparts : Json.foreignsOfMembers (parts subsystems) = [] := by
    rw [Json.foreignsOfMembers_eq_nil]
    intro m hm
    obtain ⟨entry, -, rfl⟩ := List.mem_map.1 hm
    exact foreigns_records _
  simp [document_eq, Json.foreigns, Json.foreignsOfMembers, hparts]

/-- Where everything known of the pass has a place in it, a report is the text of its document. -/
theorem render_eq_ok {subsystems : Keyed (List Record)} {about : List (String × Json)}
    (h : Json.foreignsOfMembers about = []) : render subsystems about = .ok (document subsystems about).render := by
  have hnone := Json.foreign?_eq_none (document subsystems about) ((foreigns_document subsystems about).trans h)
  simp only [render, hnone]

/-! ## Records in their order -/

/-- The records by node and name, and records with the same node and name as they were. -/
structure IsArranged (records arranged : List Record) : Prop where
  perm : arranged.Perm records
  ordered : arranged.Pairwise fun r s => r.node < s.node ∨ r.node = s.node ∧ r.name ≤ s.name
  stable : ∀ node name, arranged.filter (fun r => r.node = node ∧ r.name = name) =
    records.filter (fun r => r.node = node ∧ r.name = name)

theorem recordLe_iff {r s : Record} : recordLe r s ↔ r.node < s.node ∨ r.node = s.node ∧ r.name ≤ s.name :=
  Sorting.pairLe_iff

theorem recordLe_trans (r s t : Record) : recordLe r s → recordLe s t → recordLe r t := Sorting.pairLe_trans

theorem recordLe_total (r s : Record) : recordLe r s || recordLe s r := Sorting.pairLe_total _ _

theorem isArranged_arrange (records : List Record) : IsArranged records (arrange records) where
  perm := Sorting.sortBy_perm recordLe records
  ordered := (Sorting.sortBy_pairwise recordLe_trans recordLe_total records).imp recordLe_iff.1
  stable node name := by
    refine Sorting.filter_sortBy (fun r s hr hs => ?_) records
    have hr := of_decide_eq_true hr
    have hs := of_decide_eq_true hs
    have hname : r.name = s.name := hr.2.trans hs.2.symm
    exact recordLe_iff.2 (.inr ⟨hr.1.trans hs.1.symm, hname ▸ String.le_refl r.name⟩)

/-! ## Reading a report -/

/-- A content is a record: its four fields under their names, and nothing else. -/
def HoldsRecord (c : Content) (r : Record) : Prop :=
  ∃ token, IsShortestToken token r.value ∧ c = .object [("kind", .string r.kind.name), ("name", .string r.name),
    ("node", .string r.node), ("value", .number token)]

/-- What stands under the name of a subsystem are its records in their order. -/
def HoldsSubsystem (part : String × Content) (entry : String × List Record) : Prop :=
  part.1 = entry.1 ∧ ∃ arranged contents, IsArranged entry.2 arranged ∧ List.Forall₂ HoldsRecord contents arranged ∧
    part.2 = .array contents

theorem content_ofRecord (r : Record) :
    Json.content (ofRecord r) = .object [("kind", .string r.kind.name), ("name", .string r.name),
      ("node", .string r.node), ("value", .number (Numeral.json.render r.value))] := by
  simp [ofRecord, Json.content, Json.contentMembers, Sorting.sortBy, Sorting.insertBy, Json.nameLe, Sorting.textLe]

theorem holdsRecord_content {r : Record} (h : r.value.IsFinite) : HoldsRecord (Json.content (ofRecord r)) r :=
  ⟨_, Json.isShortestToken_of_isFinite h, content_ofRecord r⟩

theorem holdsSubsystem_content {name : String} {records : List Record} (h : ∀ r ∈ records, r.value.IsFinite) :
    HoldsSubsystem (name, Json.content (.array ((arrange records).map ofRecord))) (name, records) := by
  have harranged := isArranged_arrange records
  refine ⟨rfl, arrange records, _, harranged, ?_, rfl⟩
  rw [Json.contentItems_eq, List.map_map, List.forall₂_map_left_iff, List.forall₂_same]
  exact fun r hr => holdsRecord_content (h r (harranged.perm.mem_iff.1 hr))

/-- **A report is read back.** Where all values are finite and everything known of the pass has a place in it, a
report is a text. A reader that keeps number tokens as they are reads the whole of it as an object with two members:
what is known of the pass, and for each subsystem, under its name, its records in their order. -/
theorem render_read_back {subsystems : Keyed (List Record)} {about : List (String × Json)}
    (hrecords : ∀ entry ∈ subsystems.entries, ∀ r ∈ entry.2, r.value.IsFinite)
    (hnumbers : ∀ y ∈ Json.numbersOfMembers about, y.IsFinite) (hforeign : Json.foreignsOfMembers about = []) :
    ∃ text known parts ordered, render subsystems about = .ok text ∧
      read? text = some (.object [("meta", known), ("records", .object parts)]) ∧ Carries known (.object about) ∧
      ordered.Perm subsystems.entries ∧ List.Forall₂ HoldsSubsystem parts ordered := by
  have hfinite : ∀ y ∈ Json.numbers (document subsystems about), y.IsFinite := by
    intro y hy
    rcases mem_numbers_document.1 hy with hy | ⟨entry, he, r, hr, rfl⟩
    · exact hnumbers y hy
    · exact hrecords entry he r hr
  have hparts : List.Forall₂ HoldsSubsystem (Json.contentMembers (parts subsystems)) subsystems.entries := by
    rw [Json.contentMembers_eq, parts, List.map_map, List.forall₂_map_left_iff, List.forall₂_same]
    exact fun entry he => holdsSubsystem_content (hrecords entry he)
  have hsorted : List.Forall₂ HoldsSubsystem (Sorting.sortBy Json.nameLe _) (Sorting.sortBy Json.nameLe _) :=
    Sorting.sortBy_forall₂ (fun _ _ _ _ ha hb => by rw [Json.nameLe, Json.nameLe, ha.1, hb.1]) hparts
  refine ⟨_, Json.content (.object about), _, _, render_eq_ok hforeign, ?_, Json.carries_content _ hnumbers,
    Sorting.sortBy_perm _ _, hsorted⟩
  rw [Json.read?_render hfinite]
  simp [document_eq, Json.content, Json.contentMembers, Sorting.sortBy, Sorting.insertBy, Json.nameLe, Sorting.textLe]

/-- Two records with one name and node, and a quote and the end of a line in what is known. -/
theorem render_read_back_sample :
    let subsystems : Keyed (List Record) :=
      ⟨[("numa", [⟨"B", .gauge, .zero, "1"⟩, ⟨"A", .counter, .zero, "1"⟩, ⟨"A", .gauge, .zero, "1"⟩]), ("memory", [])],
        by decide⟩
    let about : List (String × Json) :=
      [("note", .string "\"\n"), ("counts", .array [.integer (-1), .null, .bool true])]
    ∃ text known parts ordered, render subsystems about = .ok text ∧
      read? text = some (.object [("meta", known), ("records", .object parts)]) ∧ Carries known (.object about) ∧
      ordered.Perm subsystems.entries ∧ List.Forall₂ HoldsSubsystem parts ordered :=
  render_read_back (by decide) (by decide) rfl

end Report

end NodeMemory
