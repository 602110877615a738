import Mathlib.Data.List.Forall2
import NodeMemory.NodeTable
import NodeMemory.Proofs.Fields
/-!
# Tables are read line by line

The machine's table and the tables of a node are read by one loop (`entries`): a line holds
an entry or nothing, and the first line that does not fit stops the reading. So it is said
once where a reading stops (`LineByLine.eq_error_iff`): the lines before are read, and nothing
after that line matters.
-/

namespace NodeMemory.Table

variable {α β : Type}

/-- The entries of lines, up to the first line that does not fit. -/
def entries (entry : String → Except Fault (Option β)) : List String → Except Fault (List β)
  | [] => .ok []
  | line :: rest =>
    match entry line with
    | .error f => .error f
    | .ok none => entries entry rest
    | .ok (some x) => (entries entry rest).map (x :: ·)

/-- A line holds something, be it an entry or a fault. -/
def holds (entry : String → Except Fault (Option β)) (line : String) : Bool :=
  match entry line with
  | .ok none => false
  | _ => true

/-- A reading takes the entries in order and makes something of them. -/
def LineByLine (read : List String → Except Fault α) (entry : String → Except Fault (Option β)) : Prop :=
  ∃ make : List β → α, ∀ lines, read lines = (entries entry lines).map make

/-- A reading of lines stops at one of them: the lines before it are read, and it brings this
fault, whatever comes after it. -/
structure StopsAt (read : List String → Except Fault α) (lines before : List String) (line : String)
    (f : Fault) : Prop where
  split : ∃ after, lines = before ++ line :: after
  before_ok : ∃ found, read before = .ok found
  stops : ∀ after, read (before ++ line :: after) = .error f

theorem StopsAt.eq_error {read : List String → Except Fault α} {lines before : List String} {line : String}
    {f : Fault} (h : StopsAt read lines before line f) : read lines = .error f := by
  obtain ⟨after, rfl⟩ := h.split
  exact h.stops after

theorem exists_of_forall₂ {related : α → β → Prop} {as : List α} {bs : List β} (h : List.Forall₂ related as bs) :
    ∀ b ∈ bs, ∃ a ∈ as, related a b := by
  induction h with
  | nil => simp
  | @cons a b as bs hab _ ih =>
    rw [List.forall_mem_cons]
    refine ⟨⟨a, by simp, hab⟩, fun b' hb => ?_⟩
    obtain ⟨a', ha, hr⟩ := ih b' hb
    exact ⟨a', by simp [ha], hr⟩

/-! ## Entries -/

section Entries
variable {entry : String → Except Fault (Option β)}

theorem entries_append (a b : List String) :
    entries entry (a ++ b) =
      match entries entry a with
      | .error f => .error f
      | .ok found => (entries entry b).map (found ++ ·) := by
  induction a with
  | nil => cases h : entries entry b <;> simp [entries, h, Except.map]
  | cons line a ih =>
    rw [List.cons_append, entries, entries, ih]
    cases entry line with
    | error f => rfl
    | ok x =>
      cases x with
      | none => rfl
      | some x => cases entries entry a <;> cases entries entry b <;> rfl

theorem entries_append_cons {before after : List String} {line : String} {found later : List β} {x : β}
    (hb : entries entry before = .ok found) (hl : entry line = .ok (some x)) (ha : entries entry after = .ok later) :
    entries entry (before ++ line :: after) = .ok (found ++ x :: later) := by
  simp only [entries_append, hb, entries, hl, ha, Except.map]

theorem exists_entries_iff {lines : List String} :
    (∃ found, entries entry lines = .ok found) ↔ ∀ line ∈ lines, ∃ x, entry line = .ok x := by
  induction lines with
  | nil => simp [entries]
  | cons line lines ih =>
    rw [List.forall_mem_cons, ← ih, entries]
    cases entry line with
    | error f => simp
    | ok x => cases x <;> cases entries entry lines <;> simp [Except.map]

/-- The entries of lines that are read are those of the lines that hold something. -/
theorem forall₂_entries {lines : List String} {found : List β} (h : entries entry lines = .ok found) :
    List.Forall₂ (fun line x => entry line = .ok (some x)) (lines.filter (holds entry)) found := by
  induction lines generalizing found with
  | nil =>
    cases h
    exact .nil
  | cons line lines ih =>
    rw [entries] at h
    cases hl : entry line with
    | error f => simp [hl] at h
    | ok x =>
      cases x with
      | none =>
        rw [hl] at h
        simpa [holds, hl] using ih h
      | some x =>
        rw [hl] at h
        obtain ⟨later, hr, rfl⟩ := map_eq_ok_iff.1 h
        have hh : holds entry line = true := by simp [holds, hl]
        rw [List.filter_cons_of_pos hh]
        exact .cons hl (ih hr)

theorem exists_line_of_mem {lines : List String} {found : List β} (h : entries entry lines = .ok found) :
    ∀ x ∈ found, ∃ line ∈ lines, entry line = .ok (some x) := by
  intro x hx
  obtain ⟨line, hl, he⟩ := exists_of_forall₂ (forall₂_entries h) x hx
  exact ⟨line, List.mem_of_mem_filter hl, he⟩

/-- A line that does not fit, after lines that do, decides. -/
theorem entries_append_of_error {before : List String} {line : String} {f : Fault}
    (hb : ∃ found, entries entry before = .ok found) (hl : entry line = .error f) (after : List String) :
    entries entry (before ++ line :: after) = .error f := by
  obtain ⟨found, hb⟩ := hb
  simp [entries_append, hb, entries, hl, Except.map]

theorem exists_line_of_error {lines : List String} {f : Fault} (h : entries entry lines = .error f) :
    ∃ before line after, lines = before ++ line :: after ∧ (∃ found, entries entry before = .ok found) ∧
      entry line = .error f := by
  induction lines with
  | nil => cases h
  | cons line lines ih =>
    cases hl : entry line with
    | error g =>
      simp only [entries, hl, Except.error.injEq] at h
      subst h
      exact ⟨[], line, lines, rfl, ⟨[], rfl⟩, hl⟩
    | ok x =>
      -- The fault is that of a later line, which this one comes before.
      have hr : entries entry lines = .error f := by
        cases x <;> cases hr : entries entry lines <;> simp_all [entries, Except.map]
      obtain ⟨before, bad, after, rfl, hb, hf⟩ := ih hr
      refine ⟨line :: before, bad, after, rfl, ?_, hf⟩
      rw [exists_entries_iff] at hb ⊢
      exact List.forall_mem_cons.2 ⟨⟨x, hl⟩, hb⟩

end Entries

/-! ## Readings -/

namespace LineByLine

variable {read : List String → Except Fault α} {entry : String → Except Fault (Option β)}

theorem exists_ok_iff (h : LineByLine read entry) {lines : List String} :
    (∃ found, read lines = .ok found) ↔ ∀ line ∈ lines, ∃ x, entry line = .ok x := by
  obtain ⟨make, h⟩ := h
  rw [h, ← exists_entries_iff]
  cases entries entry lines <;> simp [Except.map]

theorem stopsAt_iff (h : LineByLine read entry) {lines before : List String} {line : String} {f : Fault} :
    StopsAt read lines before line f ↔
      (∃ after, lines = before ++ line :: after) ∧ (∀ l ∈ before, ∃ x, entry l = .ok x) ∧ entry line = .error f := by
  constructor
  · rintro ⟨hs, hb, hf⟩
    refine ⟨hs, h.exists_ok_iff.1 hb, ?_⟩
    obtain ⟨found, hfound⟩ := exists_entries_iff.2 (h.exists_ok_iff.1 hb)
    obtain ⟨make, hm⟩ := h
    -- With nothing after the line the fault can only be its own.
    have hline := hf []
    cases hl : entry line with
    | error g =>
      rw [hm, entries_append_of_error ⟨found, hfound⟩ hl] at hline
      simpa [Except.map] using hline
    | ok x => cases x <;> simp [hm, entries_append, hfound, entries, hl, Except.map] at hline
  · rintro ⟨hs, hb, hf⟩
    refine ⟨hs, h.exists_ok_iff.2 hb, fun after => ?_⟩
    obtain ⟨make, hm⟩ := h
    rw [hm, entries_append_of_error (exists_entries_iff.2 hb) hf]
    rfl

theorem eq_error_iff (h : LineByLine read entry) {lines : List String} {f : Fault} :
    read lines = .error f ↔ ∃ before line, StopsAt read lines before line f := by
  constructor
  · intro hf
    have he : entries entry lines = .error f := by
      obtain ⟨make, h⟩ := h
      rw [h] at hf
      cases he : entries entry lines with
      | error g => simpa [he, Except.map] using hf
      | ok found => simp [he, Except.map] at hf
    obtain ⟨before, line, after, hs, hb, hl⟩ := exists_line_of_error he
    exact ⟨before, line, h.stopsAt_iff.2 ⟨⟨after, hs⟩, exists_entries_iff.1 hb, hl⟩⟩
  · rintro ⟨before, line, hs⟩
    exact hs.eq_error

end LineByLine

end NodeMemory.Table

namespace NodeMemory

/-! ## The machine's table -/

namespace Meminfo

theorem readFrom_eq_entries (figures : Keyed Binary64) (lines : List String) :
    readFrom figures lines =
      (Table.entries readLine lines).map (·.foldl (fun t e => t.insert e.1 e.2) figures) := by
  induction lines generalizing figures with
  | nil => rfl
  | cons line lines ih =>
    rw [readFrom, Table.entries]
    cases readLine line with
    | error f => rfl
    | ok x =>
      cases x with
      | none => exact ih figures
      | some e =>
        simp only [ih]
        cases Table.entries readLine lines <;> rfl

/-- The figures are the entries of the lines, where a later value replaces an earlier one. -/
theorem read_eq_entries (lines : List String) : read lines = (Table.entries readLine lines).map Keyed.ofList :=
  readFrom_eq_entries .empty lines

theorem lineByLine : Table.LineByLine read readLine := ⟨_, read_eq_entries⟩

theorem readLine_eq_none_iff {line : String} : readLine line = .ok none ↔ Text.fields line = [] := by
  unfold readLine
  split
  · next h => simp [h]
  · next h => simp [h]
  · next label token unit h => cases figure line label token unit <;> simp [h, Except.map]

/-- The lines that hold something are those with fields. -/
theorem holds_readLine (line : String) : Table.holds readLine line = decide (Text.fields line ≠ []) := by
  rw [Bool.eq_iff_iff, decide_eq_true_iff, Ne, ← readLine_eq_none_iff, Table.holds]
  split <;> simp_all

end Meminfo

/-! ## The tables of a node -/

namespace NodeTable

/-- The record of a line, if the line holds anything. -/
def entry (record : String → Except Fault Record) (raw : String) : Except Fault (Option Record) :=
  if (Text.strip raw).isEmpty then .ok none else (record (Text.strip raw)).map some

theorem readWith_eq_entries (record : String → Except Fault Record) (lines : List String) :
    readWith record lines = Table.entries (entry record) lines := by
  induction lines with
  | nil => rfl
  | cons raw lines ih =>
    rw [readWith, Table.entries, entry, ih]
    split
    · rfl
    · cases record (Text.strip raw) <;> rfl

theorem lineByLine (record : String → Except Fault Record) : Table.LineByLine (readWith record) (entry record) := by
  refine ⟨id, fun lines => ?_⟩
  rw [readWith_eq_entries]
  cases Table.entries (entry record) lines <;> rfl

theorem entry_eq_error_iff {record : String → Except Fault Record} {raw : String} {f : Fault} :
    entry record raw = .error f ↔ Text.fields raw ≠ [] ∧ record (Text.strip raw) = .error f := by
  rw [entry]
  split
  · next h => simp [(Text.isEmpty_strip_iff raw).1 h]
  · next h =>
    have hf : Text.fields raw ≠ [] := fun e => h ((Text.isEmpty_strip_iff raw).2 e)
    cases record (Text.strip raw) <;> simp [hf, Except.map]

theorem entry_eq_some_iff {record : String → Except Fault Record} {raw : String} {r : Record} :
    entry record raw = .ok (some r) ↔ Text.fields raw ≠ [] ∧ record (Text.strip raw) = .ok r := by
  rw [entry]
  split
  · next h => simp [(Text.isEmpty_strip_iff raw).1 h]
  · next h =>
    have hf : Text.fields raw ≠ [] := fun e => h ((Text.isEmpty_strip_iff raw).2 e)
    cases record (Text.strip raw) <;> simp [hf, Except.map]

end NodeTable

end NodeMemory
