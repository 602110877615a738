import NodeMemory.Proofs.LastValues
import NodeMemory.Proofs.Tables
/-!
# What the machine's table may hold

A line of the machine's table is blank, or it has two or three fields of which the second is a
number (`IsFigure`); such a line gives one name and one value (`Gives`). A table is read just if
all its lines are so. Then it holds the names as they first came and the last value of each. If
it is not read, the first line that does not fit tells why (`Offends`, `lines_read`).
-/

namespace NodeMemory

/-! ## Blank lines -/

namespace Table

variable {β : Type}

theorem entries_filter_holds (entry : String → Except Fault (Option β)) (lines : List String) :
    entries entry (lines.filter (holds entry)) = entries entry lines := by
  induction lines with
  | nil => rfl
  | cons line lines ih =>
    cases hl : entry line with
    | error f =>
      have hh : holds entry line = true := by simp [holds, hl]
      rw [List.filter_cons_of_pos hh, entries, entries, hl]
    | ok x =>
      cases x with
      | none =>
        have hh : ¬ holds entry line = true := by simp [holds, hl]
        rw [List.filter_cons_of_neg hh, ih, entries, hl]
      | some x =>
        have hh : holds entry line = true := by simp [holds, hl]
        rw [List.filter_cons_of_pos hh, entries, entries, hl, ih]

end Table

namespace Meminfo

/-! ## Lines -/

/-- Two or three fields, and the second is a number. -/
def IsFigure (line : String) : Prop :=
  ((Text.fields line).length = 2 ∨ (Text.fields line).length = 3) ∧
    ∃ token x, (Text.fields line)[1]? = some token ∧ Value.read table token = .ok x

/-- The name and the value that a line gives. A third field is a unit, whatever it says: the value is then one of
kibibytes, and the name and the value given are those of the bytes. -/
inductive Gives (line : String) : String × Binary64 → Prop
  | plain {label token : String} {x : Binary64} : Text.fields line = [label, token] →
      Value.read table token = .ok x → Gives line (Key.canonical label, x)
  | scaled {label token unit : String} {x : Binary64} : Text.fields line = [label, token, unit] →
      Value.read table token = .ok x → Gives line (Key.canonical label ++ "_bytes", x.mul (Binary64.ofNat 1024))

/-- Why a line does not fit. It is quoted without the line feeds that end it. A value that is no number
comes before too many fields. -/
inductive Offends (line : String) : Fault → Prop
  | label {label text : String} : Text.fields line = [label] → Text.Chomped line text →
      Offends line (.badLine .unknownShape text)
  | value {label token : String} {more : List String} {f : Fault} : Text.fields line = label :: token :: more →
      Value.read table token = .error f → Offends line f
  | fields {label token text : String} {more : List String} {x : Binary64} :
      Text.fields line = label :: token :: more → Value.read table token = .ok x → 2 ≤ more.length →
      Text.Chomped line text → Offends line (.badLine .unknownShape text)

theorem readLine_eq_some_iff {line : String} {e : String × Binary64} : readLine line = .ok (some e) ↔ Gives line e := by
  constructor
  · intro h
    unfold readLine at h
    split at h
    · cases h
    · cases h
    · next label token unit hf =>
      unfold figure at h
      cases hr : Value.read table token with
      | error f => simp [hr, Except.map] at h
      | ok x =>
        rcases unit with _ | ⟨unit, _ | ⟨more, rest⟩⟩
        · simp only [hr, Except.map, Except.ok.injEq, Option.some.injEq] at h
          exact h ▸ .plain hf hr
        · simp only [hr, Except.map, Except.ok.injEq, Option.some.injEq] at h
          exact h ▸ .scaled hf hr
        · simp [hr, Except.map] at h
  · intro h
    cases h with
    | plain hf hr => simp [readLine, figure, hf, hr, Except.map]
    | scaled hf hr => simp [readLine, figure, hf, hr, Except.map, bytesSuffix, Value.kibibytes]

theorem gives_rightUnique : Relator.RightUnique Gives := fun _ _ _ h h' =>
  Option.some.inj (Except.ok.inj ((readLine_eq_some_iff.2 h).symm.trans (readLine_eq_some_iff.2 h')))

theorem readLine_eq_error_iff {line : String} {f : Fault} : readLine line = .error f ↔ Offends line f := by
  have hchomp : Text.Chomped line (Text.chomp line) := Text.chomp_eq_iff.1 rfl
  constructor
  · intro h
    unfold readLine at h
    split at h
    · cases h
    · next label hf =>
      cases h
      exact .label hf hchomp
    · next label token unit hf =>
      unfold figure at h
      cases hr : Value.read table token with
      | error g =>
        simp only [hr, Except.map, Except.error.injEq] at h
        exact .value hf (h ▸ hr)
      | ok x =>
        rcases unit with _ | ⟨unit, _ | ⟨more, rest⟩⟩
        · simp [hr, Except.map] at h
        · simp [hr, Except.map] at h
        · simp only [hr, Except.map, Except.error.injEq] at h
          exact h ▸ .fields hf hr (by simp) hchomp
  · intro h
    cases h with
    | label hf ht => simp [readLine, hf, Text.chomp_eq_iff.2 ht]
    | value hf hr => simp [readLine, figure, hf, hr, Except.map]
    | @fields label token text more x hf hr hm ht =>
      rcases more with _ | ⟨a, _ | ⟨b, rest⟩⟩
      · simp at hm
      · simp at hm
      · simp [readLine, figure, hf, hr, Except.map, Text.chomp_eq_iff.2 ht]

theorem exists_gives_iff {line : String} : (∃ e, Gives line e) ↔ IsFigure line := by
  constructor
  · rintro ⟨e, h⟩
    cases h with
    | plain hf hr => exact ⟨.inl (by simp [hf]), _, _, by simp [hf], hr⟩
    | scaled hf hr => exact ⟨.inr (by simp [hf]), _, _, by simp [hf], hr⟩
  · rintro ⟨hlen, token, x, ht, hr⟩
    rcases hlen with hlen | hlen
    · obtain ⟨label, other, hf⟩ := List.length_eq_two.1 hlen
      obtain rfl : other = token := by simpa [hf] using ht
      exact ⟨_, .plain hf hr⟩
    · obtain ⟨label, other, unit, hf⟩ := List.length_eq_three.1 hlen
      obtain rfl : other = token := by simpa [hf] using ht
      exact ⟨_, .scaled hf hr⟩

/-- A line is read just if it is blank or a figure. -/
theorem exists_readLine_iff {line : String} :
    (∃ x, readLine line = .ok x) ↔ (Text.fields line ≠ [] → IsFigure line) := by
  rw [← exists_gives_iff]
  simp only [← readLine_eq_some_iff, Ne, ← readLine_eq_none_iff]
  cases readLine line with
  | error f => simp
  | ok x => cases x <;> simp

/-! ## Tables -/

/-- What a table holds that is read from lines: what those lines give that are not blank. -/
structure Holds (lines : List String) (figures : Keyed Binary64) (given : List (String × Binary64)) : Prop where
  lines_give : List.Forall₂ Gives (lines.filter fun line => Text.fields line ≠ []) given
  /-- The names stand in the order in which they first came, -/
  names_eq : figures.names = (given.map Prod.fst).eraseDups
  /-- and each has the value that came last. -/
  get?_eq : ∀ name, figures.get? name = Keyed.lastValue? given name

theorem filter_holds (lines : List String) :
    lines.filter (Table.holds readLine) = lines.filter fun line => Text.fields line ≠ [] :=
  List.filter_congr fun line _ => holds_readLine line

theorem exists_holds {lines : List String} {figures : Keyed Binary64} (h : read lines = .ok figures) :
    ∃ given, Holds lines figures given := by
  rw [read_eq_entries] at h
  obtain ⟨given, he, rfl⟩ := map_eq_ok_iff.1 h
  refine ⟨given, ?_, Keyed.names_ofList given, Keyed.get?_ofList given⟩
  rw [← filter_holds]
  exact (Table.forall₂_entries he).imp fun _ _ => readLine_eq_some_iff.1

theorem read_filter (lines : List String) : read (lines.filter fun line => Text.fields line ≠ []) = read lines := by
  rw [read_eq_entries, read_eq_entries, ← filter_holds, Table.entries_filter_holds]

/-- **What a table may hold.** A table is read exactly if every line that is not blank is a figure.
It then holds what the lines give. Otherwise its fault is that of the first line that does not
fit, and nothing after that line matters. Blank lines never matter. -/
theorem lines_read (lines : List String) :
    ((∃ figures, read lines = .ok figures) ↔ ∀ line ∈ lines, Text.fields line ≠ [] → IsFigure line) ∧
    (∀ figures, read lines = .ok figures → ∃ given, Holds lines figures given) ∧
    (∀ f, read lines = .error f ↔ ∃ before line, Table.StopsAt read lines before line f ∧ Offends line f) ∧
    ∀ others, (others.filter fun line => Text.fields line ≠ []) = (lines.filter fun line => Text.fields line ≠ []) →
      read others = read lines := by
  refine ⟨?_, fun figures h => exists_holds h, fun f => ⟨fun h => ?_, ?_⟩, fun others h => ?_⟩
  · rw [lineByLine.exists_ok_iff]
    exact forall₂_congr fun line _ => exists_readLine_iff
  · obtain ⟨before, line, hs⟩ := lineByLine.eq_error_iff.1 h
    exact ⟨before, line, hs, readLine_eq_error_iff.1 (lineByLine.stopsAt_iff.1 hs).2.2⟩
  · rintro ⟨before, line, hs, -⟩
    exact hs.eq_error
  · rw [← read_filter others, h, read_filter]

/-- Lines with different units and one without a unit, and a blank line between them. Two give the same name. -/
def twoUnits : List String := ["A(b): 1 kB", " ", "C: 2 pages", "A_b_bytes 7"]

theorem lines_read_twice :
    ∃ figures, read twoUnits = .ok figures ∧
      Holds twoUnits figures [("A_b_bytes", .ofNat 1024), ("C_bytes", .ofNat 2048), ("A_b_bytes", .ofNat 7)] ∧
      figures.names = ["A_b_bytes", "C_bytes"] ∧ figures.get? "A_b_bytes" = some (.ofNat 7) ∧
      figures.get? "C_bytes" = some (.ofNat 2048) ∧
      read ["\n", "A(b): 1 kB", "C: 2 pages", "A_b_bytes 7"] = .ok figures := by
  obtain ⟨-, hholds, -, hblank⟩ := lines_read twoUnits
  obtain ⟨figures, h⟩ : ∃ figures, read twoUnits = .ok figures := ⟨_, rfl⟩
  obtain ⟨given, hg⟩ := hholds figures h
  have hlines : (twoUnits.filter fun line => Text.fields line ≠ []) = ["A(b): 1 kB", "C: 2 pages", "A_b_bytes 7"] := by
    decide +kernel
  have hone : Gives "A(b): 1 kB" ("A_b_bytes", .ofNat 1024) := readLine_eq_some_iff.1 (by decide +kernel)
  have htwo : Gives "C: 2 pages" ("C_bytes", .ofNat 2048) := readLine_eq_some_iff.1 (by decide +kernel)
  have hseven : Gives "A_b_bytes 7" ("A_b_bytes", .ofNat 7) := readLine_eq_some_iff.1 (by decide +kernel)
  -- What a line gives is one name and value, so the lines give no others.
  obtain rfl := List.right_unique_forall₂' gives_rightUnique (hlines ▸ hg.lines_give)
    (.cons hone (.cons htwo (.cons hseven .nil)))
  exact ⟨figures, h, hg, hg.names_eq, hg.get?_eq _, hg.get?_eq _, (hblank _ (by decide +kernel)).trans h⟩

end Meminfo

end NodeMemory
