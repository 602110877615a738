import NodeMemory.Proofs.Tables
import NodeMemory.Proofs.Tokens
/-!
# The machine's table and a node's table agree

A line of the machine's table with a node in front of it (`withNode`) is a line of a node's
memory table, with the same figure, unless it has a unit other than `kB`: the machine's table
takes any third field for the unit. Line by line this is `agree_withNode`; whole tables give
the same figures and stop at the same line with the same kind of fault (`tables_agree`).
-/

namespace NodeMemory

/-- Faults of one kind: of values, the same table and token; of lines, the same complaint,
however each quotes its line. -/
inductive Fault.SameKind : Fault → Fault → Prop
  | value (table token : String) : SameKind (.badValue table token) (.badValue table token)
  | word (token : String) : SameKind (.misspeltValue token) (.misspeltValue token)
  | line (what : LineFault) (a b : String) : SameKind (.badLine what a) (.badLine what b)

theorem Fault.sameKind_of_read {table token : String} {f : Fault} (h : Value.read table token = .error f) :
    f.SameKind f := by
  rcases Value.read_eq_error_iff.1 h with ⟨-, rfl⟩ | ⟨-, rfl⟩
  · exact .value table token
  · exact .word token

namespace NodeTable

/-- A line that holds anything, with a node in front of it. -/
def withNode (id line : String) : String :=
  if Text.fields line = [] then line else "Node " ++ id ++ " " ++ line

/-- If a line has three fields, the third is `kB`. -/
def UnitFits (line : String) : Prop := ∀ label token unit, Text.fields line = [label, token, unit] → unit = "kB"

theorem unitFits_iff {line : String} :
    UnitFits line ↔ ((Text.fields line).length = 3 → (Text.fields line)[2]? = some "kB") := by
  constructor
  · intro h hlen
    obtain ⟨label, token, unit, hl⟩ := List.length_eq_three.1 hlen
    simp [hl, h label token unit hl]
  · intro h label token unit hl
    simpa [hl] using h

instance (line : String) : Decidable (UnitFits line) := decidable_of_iff' _ unitFits_iff

/-- The gauge of a figure. -/
def gaugeOf (id : String) (figure : String × Binary64) : Record := ⟨figure.1, .gauge, figure.2, id⟩

/-- What a line gives in both tables: nothing, a figure and its gauge, or faults of one kind. -/
inductive Agree (id : String) : Except Fault (Option (String × Binary64)) → Except Fault (Option Record) → Prop
  | nothing : Agree id (.ok none) (.ok none)
  | figure (x : String × Binary64) : Agree id (.ok (some x)) (.ok (some (gaugeOf id x)))
  | fault {f g : Fault} : f.SameKind g → Agree id (.error f) (.error g)

theorem Agree.exists_ok_iff {id : String} {a : Except Fault (Option (String × Binary64))}
    {b : Except Fault (Option Record)} (h : Agree id a b) : (∃ x, b = .ok x) ↔ ∃ x, a = .ok x := by
  cases h <;> simp

/-! ## Lines -/

section Lines
variable {id : String} (hid : Text.IsWord id)
include hid

theorem fields_withNode {line : String} (hf : Text.fields line ≠ []) :
    Text.fields (withNode id line) = "Node" :: id :: Text.fields line := by
  have hnode : Text.IsWord "Node" := by decide
  have hl : withNode id line = "Node" ++ " " ++ (id ++ " " ++ line) := by
    simp only [withNode, hf, if_false, String.append_assoc]
    rfl
  rw [hl, Text.fields_lead hnode, Text.fields_lead hid]

theorem entry_withNode {line : String} (hf : Text.fields line ≠ []) :
    entry gauge (withNode id line) = (gauge (Text.strip (withNode id line))).map some := by
  have hne : ¬ (Text.strip (withNode id line)).isEmpty := by
    rw [Text.isEmpty_strip_iff, fields_withNode hid hf]
    simp
  simp only [entry, hne]
  rfl

/-- A line whose unit fits gives the same in both tables. -/
theorem agree_withNode {line : String} (hu : UnitFits line) :
    Agree id (Meminfo.readLine line) (entry gauge (withNode id line)) := by
  by_cases hf : Text.fields line = []
  · rw [Meminfo.readLine_eq_none_iff.2 hf, entry, withNode, if_pos hf, if_pos ((Text.isEmpty_strip_iff line).2 hf)]
    exact .nothing
  · have hw : Text.fields (Text.strip (withNode id line)) = "Node" :: id :: Text.fields line := by
      rw [Text.fields_strip, fields_withNode hid hf]
    rw [entry_withNode hid hf]
    unfold Meminfo.readLine gauge
    rw [hw]
    rcases hl : Text.fields line with _ | ⟨label, _ | ⟨token, unit⟩⟩
    · exact absurd hl hf
    · exact .fault (.line .unknownShape _ _)
    · simp only [Meminfo.figure]
      cases hr : Value.read Meminfo.table token with
      | error f => exact .fault (Fault.sameKind_of_read hr)
      | ok x =>
        -- The shapes of the rest of the line: no unit, one field, or more.
        rcases unit with _ | ⟨unit, _ | ⟨more, rest⟩⟩
        · exact .figure (_, x)
        · obtain rfl := hu label token unit hl
          exact .figure (_, _)
        · have hmore : unit :: more :: rest ≠ ["kB"] := by simp
          simp only [hmore, if_false, List.isEmpty_cons, Bool.false_eq_true]
          exact .fault (.line .unknownShape _ _)

theorem exists_fault_of_unit {line : String} (hu : ¬ UnitFits line) :
    ∃ f, entry gauge (withNode id line) = .error f := by
  simp only [UnitFits, not_forall] at hu
  obtain ⟨label, token, unit, hl, hne⟩ := hu
  have hf : Text.fields line ≠ [] := by simp [hl]
  rw [entry_withNode hid hf]
  have hw : Text.fields (Text.strip (withNode id line)) = "Node" :: id :: [label, token, unit] := by
    rw [Text.fields_strip, fields_withNode hid hf, hl]
  unfold gauge
  rw [hw]
  dsimp only
  cases Value.read Meminfo.table token with
  | error f => exact ⟨f, rfl⟩
  | ok x => exact ⟨.badLine .unknownShape _, by simp [hne, Except.map]; rfl⟩

theorem exists_entry_iff {line : String} :
    (∃ x, entry gauge (withNode id line) = .ok x) ↔ (∃ x, Meminfo.readLine line = .ok x) ∧ UnitFits line := by
  by_cases hu : UnitFits line
  · simp only [hu, and_true, (agree_withNode hid hu).exists_ok_iff]
  · obtain ⟨f, hf⟩ := exists_fault_of_unit hid hu
    simp [hu, hf]

/-! ## Tables -/

theorem entries_withNode {lines : List String} (hu : ∀ line ∈ lines, UnitFits line)
    {figures : List (String × Binary64)} (h : Table.entries Meminfo.readLine lines = .ok figures) :
    Table.entries (entry gauge) (lines.map (withNode id)) = .ok (figures.map (gaugeOf id)) := by
  induction lines generalizing figures with
  | nil =>
    cases h
    rfl
  | cons line lines ih =>
    obtain ⟨hl, hls⟩ := List.forall_mem_cons.1 hu
    have ha := agree_withNode hid hl
    rw [Table.entries] at h
    rw [List.map_cons, Table.entries]
    generalize Meminfo.readLine line = a at h ha
    generalize entry gauge (withNode id line) = b at ha
    cases ha with
    | nothing => exact ih hls h
    | figure x =>
      obtain ⟨later, hr, rfl⟩ := map_eq_ok_iff.1 h
      simp only [ih hls hr, Except.map, List.map_cons]
    | fault hk => cases h

theorem readMemory_ok_iff {lines : List String} :
    (∃ records, readMemory (lines.map (withNode id)) = .ok records) ↔
      (∃ figures, Meminfo.read lines = .ok figures) ∧ ∀ line ∈ lines, UnitFits line := by
  simp only [Meminfo.lineByLine.exists_ok_iff, readMemory, (lineByLine gauge).exists_ok_iff, List.forall_mem_map,
    exists_entry_iff hid, forall₂_and]

/-- A reading of a node's table that goes through gives the gauges of the figures. -/
theorem exists_figures {lines : List String} {records : List Record}
    (h : readMemory (lines.map (withNode id)) = .ok records) :
    ∃ figures, Table.entries Meminfo.readLine lines = .ok figures ∧ records = figures.map (gaugeOf id) := by
  obtain ⟨hf, hu⟩ := (readMemory_ok_iff hid).1 ⟨records, h⟩
  obtain ⟨figures, hf⟩ := Table.exists_entries_iff.2 (Meminfo.lineByLine.exists_ok_iff.1 hf)
  rw [readMemory, readWith_eq_entries, entries_withNode hid hu hf, Except.ok.injEq] at h
  exact ⟨figures, hf, h.symm⟩

/-- Where the machine's table stops, with units that fit up to there, a node's table stops too. -/
theorem stopsAt_withNode {lines before : List String} {line : String} {f : Fault}
    (hs : Table.StopsAt Meminfo.read lines before line f) (hu : ∀ l ∈ before ++ [line], UnitFits l) :
    ∃ g, Table.StopsAt readMemory (lines.map (withNode id)) (before.map (withNode id)) (withNode id line) g ∧
      f.SameKind g := by
  obtain ⟨⟨after, rfl⟩, hb, hf⟩ := Meminfo.lineByLine.stopsAt_iff.1 hs
  -- A faulty line agrees with a faulty line alone.
  have ha := agree_withNode hid (hu line (by simp))
  rw [hf] at ha
  generalize hg : entry gauge (withNode id line) = b at ha
  cases ha with
  | @fault _ g hk =>
    refine ⟨g, (lineByLine gauge).stopsAt_iff.2 ⟨⟨after.map (withNode id), by simp⟩, ?_, hg⟩, hk⟩
    rw [List.forall_mem_map]
    intro l hl
    exact (exists_entry_iff hid).2 ⟨hb l hl, hu l (by simp [hl])⟩

/-- A machine's table and the same lines with a node in front of them. The node's table is
read just if the machine's is and no line has another unit than `kB`. Its records are the
gauges of the node, one for each line that is not blank, and under their names they are the
machine's figures. Where the machine's table stops, and no unit up to there is another, the
node's table stops at the same line with a fault of the same kind. -/
theorem tables_agree (lines : List String) :
    ((∃ records, readMemory (lines.map (withNode id)) = .ok records) ↔
      (∃ figures, Meminfo.read lines = .ok figures) ∧ ∀ line ∈ lines, UnitFits line) ∧
    (∀ records, readMemory (lines.map (withNode id)) = .ok records →
      List.Forall₂ (fun line r => r.kind = .gauge ∧ r.node = id ∧ Meminfo.readLine line = .ok (some (r.name, r.value)))
        (lines.filter fun line => Text.fields line ≠ []) records ∧
      Meminfo.read lines = .ok (.ofList (records.map fun r => (r.name, r.value)))) ∧
    ∀ f, Meminfo.read lines = .error f → ∃ before line, Table.StopsAt Meminfo.read lines before line f ∧
      ((∀ l ∈ before ++ [line], UnitFits l) → ∃ g,
        Table.StopsAt readMemory (lines.map (withNode id)) (before.map (withNode id)) (withNode id line) g ∧
          f.SameKind g) := by
  refine ⟨readMemory_ok_iff hid, fun records h => ?_, fun f h => ?_⟩
  · obtain ⟨figures, hf, rfl⟩ := exists_figures hid h
    constructor
    · have hfilter : lines.filter (fun line => Text.fields line ≠ []) = lines.filter (Table.holds Meminfo.readLine) :=
        List.filter_congr fun line _ => by rw [Meminfo.holds_readLine]
      rw [hfilter, List.forall₂_map_right_iff]
      exact (Table.forall₂_entries hf).imp fun line x hx => ⟨rfl, rfl, hx⟩
    · have hmap : (figures.map (gaugeOf id)).map (fun r => (r.name, r.value)) = figures := by
        rw [List.map_map]
        exact List.map_id figures
      rw [Meminfo.read_eq_entries, hf, hmap]
      rfl
  · obtain ⟨before, line, hs⟩ := Meminfo.lineByLine.eq_error_iff.1 h
    exact ⟨before, line, hs, stopsAt_withNode hid hs⟩

end Lines

/-- Two lines and a blank one between them, for a node. -/
theorem tables_agree_nodeZero :
    Text.IsWord "0" ∧ ∃ records,
      readMemory (["Active(anon): 2 kB", " ", "HugePages_Total: 3"].map (withNode "0")) = .ok records ∧
        Meminfo.read ["Active(anon): 2 kB", " ", "HugePages_Total: 3"] =
          .ok (.ofList (records.map fun r => (r.name, r.value))) := by
  have hid : Text.IsWord "0" := by decide
  obtain ⟨hok, hrecords, -⟩ := tables_agree hid ["Active(anon): 2 kB", " ", "HugePages_Total: 3"]
  have hu : ∀ line ∈ ["Active(anon): 2 kB", " ", "HugePages_Total: 3"], UnitFits line := by decide +kernel
  obtain ⟨records, h⟩ := hok.2 ⟨⟨_, rfl⟩, hu⟩
  exact ⟨hid, records, h, (hrecords records h).2⟩

end NodeTable

end NodeMemory
