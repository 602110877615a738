import NodeMemory.Proofs.TableGrammar
import NodeMemory.Proofs.Tokens
/-!
# What the faults of tables tell

A reading of a table fails at its first line that does not fit. The fault is a malformed
value, with the table and the token, or a malformed line, with the line, unless the value
is a misspelt word: then it tells neither (`faults_told`, `not_malformed_dotless`).
-/

namespace NodeMemory

/-- A fault that tells what is wrong with a table: a value or a line. -/
inductive Fault.Malformed : Fault → Prop
  | value (table token : String) : Malformed (.badValue table token)
  | line (what : LineFault) (text : String) : Malformed (.badLine what text)

namespace Table

/-- How the lines of a table are told about. -/
structure Format where
  /-- What the table is called. -/
  name : String
  /-- The token in the value column of a line's fields, if it has one. -/
  value? : List String → Option String
  /-- What is said of a line that has none of the table's shapes. -/
  shapeFault : LineFault
  /-- How a line is quoted. -/
  quoted : String → String

/-- Why a line does not fit. Its value comes first: only a line with a number in the value
column, or without such a column, is malformed as a line. -/
inductive Format.Explains (format : Format) (line : String) : Fault → Prop
  | value {token : String} : format.value? (Text.fields line) = some token → ¬ Value.Misspelt token →
      (∀ x, Value.read format.name token ≠ .ok x) → Explains format line (.badValue format.name token)
  | word {token : String} : format.value? (Text.fields line) = some token → Value.Misspelt token →
      Explains format line (.misspeltValue token)
  | shape : (∀ token, format.value? (Text.fields line) = some token → ∃ x, Value.read format.name token = .ok x) →
      Explains format line (.badLine format.shapeFault (format.quoted line))

theorem Format.explains_of_read {format : Format} {line token : String} {f : Fault}
    (hv : format.value? (Text.fields line) = some token) (h : Value.read format.name token = .error f) :
    format.Explains line f := by
  rcases Value.read_eq_error_iff.1 h with ⟨-, rfl⟩ | ⟨hm, rfl⟩
  · refine .value hv (fun hm => ?_) (fun x hx => ?_)
    · rw [Value.read_of_misspelt hm] at h
      cases h
    · rw [h] at hx
      cases hx
  · exact .word hv hm

theorem Format.explains_shape {format : Format} {line token : String} {x : Binary64}
    (hv : format.value? (Text.fields line) = some token) (hr : Value.read format.name token = .ok x) :
    format.Explains line (.badLine format.shapeFault (format.quoted line)) := by
  refine .shape fun other ho => ⟨x, ?_⟩
  rw [hv, Option.some.injEq] at ho
  exact ho ▸ hr

theorem Format.explains_shape_of_none {format : Format} {line : String}
    (hv : format.value? (Text.fields line) = none) :
    format.Explains line (.badLine format.shapeFault (format.quoted line)) :=
  .shape fun _ ho => by simp [hv] at ho

/-- A line with a misspelt value comes after lines that fit. -/
def Format.Misspells {α : Type} (format : Format) (read : List String → Except Fault α) (lines : List String) : Prop :=
  ∃ before line after token, lines = before ++ line :: after ∧ (∃ found, read before = .ok found) ∧
    format.value? (Text.fields line) = some token ∧ Value.Misspelt token

/-- The fault of a reading explains the line that the reading stops at, and it is malformed
just if no misspelt value comes first. -/
structure Format.Tells {α : Type} (format : Format) (read : List String → Except Fault α) (lines : List String) :
    Prop where
  told : ∀ {f}, read lines = .error f → ∃ before line, StopsAt read lines before line f ∧ format.Explains line f
  malformed_iff : (∀ f, read lines = .error f → f.Malformed) ↔ ¬ format.Misspells read lines

/-- What tells about the lines tells about the readings. -/
theorem Format.tells_of_entry {α β : Type} {format : Format} {read : List String → Except Fault α}
    {entry : String → Except Fault (Option β)} (hr : LineByLine read entry)
    (he : ∀ {line f}, entry line = .error f → format.Explains line f)
    (hm : ∀ {line token f}, format.value? (Text.fields line) = some token → Value.read format.name token = .error f →
      entry line = .error f) (lines : List String) : format.Tells read lines := by
  have told {f : Fault} (h : read lines = .error f) :
      ∃ before line, StopsAt read lines before line f ∧ format.Explains line f := by
    obtain ⟨before, line, hs⟩ := hr.eq_error_iff.1 h
    exact ⟨before, line, hs, he (hr.stopsAt_iff.1 hs).2.2⟩
  refine ⟨told, ⟨?_, ?_⟩⟩
  · rintro h ⟨before, line, after, token, hl, hb, hv, ht⟩
    have hs : StopsAt read lines before line (.misspeltValue token) :=
      hr.stopsAt_iff.2 ⟨⟨after, hl⟩, hr.exists_ok_iff.1 hb, hm hv (Value.read_of_misspelt ht _)⟩
    cases h _ hs.eq_error
  · intro hn f h
    obtain ⟨before, line, hs, hx⟩ := told h
    cases hx with
    | value _ _ _ => exact .value _ _
    | shape _ => exact .line _ _
    | @word token hv ht =>
      obtain ⟨after, hl⟩ := hs.split
      exact absurd ⟨before, line, after, token, hl, hs.before_ok, hv, ht⟩ hn

end Table

/-! ## The machine's table -/

namespace Meminfo

def format : Table.Format where
  name := table
  value?
    | _ :: token :: _ => some token
    | _ => none
  shapeFault := .unknownShape
  quoted := Text.chomp

theorem explains {line : String} {f : Fault} (h : readLine line = .error f) : format.Explains line f := by
  cases readLine_eq_error_iff.1 h with
  | label hf ht =>
    rw [← Text.chomp_eq_iff.2 ht]
    exact Table.Format.explains_shape_of_none (by simp [format, hf])
  | value hf hr => exact Table.Format.explains_of_read (by simp [format, hf]) hr
  | fields hf hr _ ht =>
    rw [← Text.chomp_eq_iff.2 ht]
    exact Table.Format.explains_shape (by simp [format, hf]) hr

theorem readLine_of_value {line token : String} {f : Fault} (hv : format.value? (Text.fields line) = some token)
    (hr : Value.read table token = .error f) : readLine line = .error f := by
  unfold format at hv
  dsimp only at hv
  split at hv
  · next label other more hf =>
    cases hv
    exact readLine_eq_error_iff.2 (.value hf hr)
  · cases hv

theorem format_tells (lines : List String) : format.Tells read lines :=
  Table.Format.tells_of_entry lineByLine explains readLine_of_value lines

end Meminfo

/-! ## The tables of a node -/

namespace NodeTable

def memoryFormat : Table.Format where
  name := Meminfo.table
  value?
    | _ :: _ :: _ :: token :: _ => some token
    | _ => none
  shapeFault := .unknownShape
  quoted := Text.strip

/-- Only a line of exactly two fields has a count. -/
def countFormat : Table.Format where
  name := countTable
  value?
    | [_, token] => some token
    | _ => none
  shapeFault := .notTwoFields
  quoted := Text.strip

theorem explains_memory {line : String} {f : Fault} (h : entry gauge line = .error f) :
    memoryFormat.Explains line f := by
  obtain ⟨-, h⟩ := entry_eq_error_iff.1 h
  unfold gauge at h
  rw [Text.fields_strip] at h
  split at h
  · next first node label token unit hf =>
    have hv : memoryFormat.value? (Text.fields line) = some token := by simp [memoryFormat, hf]
    split at h
    · next g hr =>
      cases h
      exact Table.Format.explains_of_read hv hr
    · next x hr =>
      split at h
      · cases h
      · split at h
        · cases h
        · cases h
          exact Table.Format.explains_shape hv hr
  · next hf =>
    cases h
    refine Table.Format.explains_shape_of_none ?_
    unfold memoryFormat
    dsimp only
    split
    · next he => exact absurd he (hf _ _ _ _ _)
    · rfl

theorem entry_gauge_of_value {line token : String} {f : Fault}
    (hv : memoryFormat.value? (Text.fields line) = some token) (hr : Value.read Meminfo.table token = .error f) :
    entry gauge line = .error f := by
  unfold memoryFormat at hv
  dsimp only at hv
  split at hv
  · next first node label other unit hf =>
    cases hv
    rw [entry_eq_error_iff]
    exact ⟨by simp [hf], by simp [gauge, Text.fields_strip, hf, hr]⟩
  · cases hv

theorem memoryFormat_tells (lines : List String) : memoryFormat.Tells readMemory lines :=
  Table.Format.tells_of_entry (lineByLine gauge) explains_memory entry_gauge_of_value lines

theorem explains_count {node line : String} {f : Fault} (h : entry (counter node) line = .error f) :
    countFormat.Explains line f := by
  obtain ⟨-, h⟩ := entry_eq_error_iff.1 h
  unfold counter at h
  rw [Text.fields_strip] at h
  split at h
  · next name token hf =>
    split at h
    · next g hr =>
      cases h
      have hv : countFormat.value? (Text.fields line) = some token := by simp [countFormat, hf]
      exact Table.Format.explains_of_read hv hr
    · cases h
  · next hf =>
    cases h
    refine Table.Format.explains_shape_of_none ?_
    unfold countFormat
    dsimp only
    split
    · next he => exact absurd he (hf _ _)
    · rfl

theorem entry_counter_of_value {node line token : String} {f : Fault}
    (hv : countFormat.value? (Text.fields line) = some token) (hr : Value.read countTable token = .error f) :
    entry (counter node) line = .error f := by
  unfold countFormat at hv
  dsimp only at hv
  split at hv
  · next name other hf =>
    cases hv
    rw [entry_eq_error_iff]
    exact ⟨by simp [hf], by simp [counter, Text.fields_strip, hf, hr]⟩
  · cases hv

theorem countFormat_tells (node : String) (lines : List String) : countFormat.Tells (readCounts node) lines :=
  Table.Format.tells_of_entry (lineByLine (counter node)) explains_count entry_counter_of_value lines

end NodeTable

/-! ## All tables -/

namespace Table

/-- **What the faults tell.** A token that is no number is refused as a malformed value of
its table just if it is no misspelt word. So it is with the readings of all tables: a fault
explains the first line that does not fit, and it is a malformed value with the table and
the token, or a malformed line with the line, just if no line with a misspelt value comes
after lines that fit. -/
theorem faults_told (table token node : String) (lines : List String) :
    ((∀ f, Value.read table token = .error f → f = .badValue table token) ↔ ¬ Value.Misspelt token) ∧
    Meminfo.format.Tells Meminfo.read lines ∧ NodeTable.memoryFormat.Tells NodeTable.readMemory lines ∧
    NodeTable.countFormat.Tells (NodeTable.readCounts node) lines := by
  refine ⟨⟨fun h hm => ?_, fun hm f hf => ?_⟩, ?_, ?_, ?_⟩
  · cases h _ (Value.read_of_misspelt hm table)
  · exact Value.eq_badValue_of_read hm hf
  · exact Meminfo.format_tells lines
  · exact NodeTable.memoryFormat_tells lines
  · exact NodeTable.countFormat_tells node lines

/-- The first letter of `inf` is written without its dot. -/
theorem misspelt_dotless : Value.Misspelt "ınf" := by
  refine ⟨[], ['ı', 'n', 'f'], ['i', 'n', 'f'], by decide, rfl, by simp, ?_, by simp⟩
  exact .cons (.inr (.inr ⟨rfl, .inl rfl⟩)) (.cons (.inl rfl) (.cons (.inl rfl) .nil))

/-- Such a word after lines that fit is not told as malformed. -/
theorem faults_told_dotless :
    Meminfo.format.Misspells Meminfo.read ["MemTotal: 1 kB", "MemFree: ınf kB", "Pages"] ∧
      ¬ ∀ f, Meminfo.read ["MemTotal: 1 kB", "MemFree: ınf kB", "Pages"] = .error f → f.Malformed := by
  have hm : Meminfo.format.Misspells Meminfo.read ["MemTotal: 1 kB", "MemFree: ınf kB", "Pages"] :=
    ⟨["MemTotal: 1 kB"], "MemFree: ınf kB", ["Pages"], "ınf", rfl, ⟨_, rfl⟩, by decide +kernel, misspelt_dotless⟩
  obtain ⟨-, ⟨-, hiff⟩, -⟩ := faults_told "meminfo" "ınf" "0" ["MemTotal: 1 kB", "MemFree: ınf kB", "Pages"]
  exact ⟨hm, fun h => hiff.1 h hm⟩

/-- Not every fault of a machine's table tells of a malformed value or line. -/
theorem not_malformed_dotless : ¬ ∀ lines f, Meminfo.read lines = .error f → f.Malformed := by
  intro h
  have hf : Meminfo.read ["MemTotal: ınf"] = .error (.misspeltValue "ınf") := rfl
  cases h _ _ hf

end Table

end NodeMemory
