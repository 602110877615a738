import Mathlib.Data.List.DropRight
import Mathlib.Data.List.TakeWhile
import NodeMemory.Text.Blank
/-!
# Fields of a line

Blanks only divide: the fields on both sides of a blank are those of the two parts
(`fieldsOf_append_blank`). So the blanks around a line do not matter (`fields_strip`), a
word put in front becomes the first field (`fields_lead`), and every field is a word.
Other characters cut a text too, the first or the last of them in one way (`last_unique`).
-/

namespace NodeMemory.Text

/-- There is no blank in a text. -/
def Unbroken (text : String) : Prop := ∀ c ∈ text.toList, isBlank c = false

/-- At least one character, and none of them blank. -/
def IsWord (text : String) : Prop := text ≠ "" ∧ Unbroken text

-- The characters of the text are looked at, never all characters there are.
instance (text : String) : Decidable (Unbroken text) := List.decidableBAll (fun c => isBlank c = false) text.toList

instance (text : String) : Decidable (IsWord text) := inferInstanceAs (Decidable (text ≠ "" ∧ Unbroken text))

theorem Unbroken.append {a b : String} (ha : Unbroken a) (hb : Unbroken b) : Unbroken (a ++ b) := by
  intro c hc
  rw [String.toList_append, List.mem_append] at hc
  exact hc.elim (ha c) (hb c)

/-! ## Cutting at a character -/

/-- A text can be cut at the first of a character in one way. -/
theorem first_unique {a : Char} {before rest before' rest' : List Char}
    (h : before ++ a :: rest = before' ++ a :: rest') (hb : a ∉ before) (hb' : a ∉ before') :
    before = before' ∧ rest = rest' := by
  induction before generalizing before' with
  | nil =>
    cases before' with
    | nil => exact ⟨rfl, (List.cons.inj h).2⟩
    | cons d before' => exact absurd (List.cons.inj h).1 fun he => hb' (by simp [he])
  | cons c before ih =>
    cases before' with
    | nil => exact absurd (List.cons.inj h).1 fun he => hb (by simp [he])
    | cons d before' =>
      obtain ⟨rfl, hrest⟩ := List.cons.inj h
      obtain ⟨rfl, rfl⟩ := ih hrest (List.not_mem_of_not_mem_cons hb) (List.not_mem_of_not_mem_cons hb')
      exact ⟨rfl, rfl⟩

/-- A text can be cut at the last of a character in one way. -/
theorem last_unique {a : Char} {before rest before' rest' : List Char}
    (h : before ++ a :: rest = before' ++ a :: rest') (hr : a ∉ rest) (hr' : a ∉ rest') :
    before = before' ∧ rest = rest' := by
  have hrev := congrArg List.reverse h
  simp only [List.reverse_append, List.reverse_cons, List.append_assoc, List.singleton_append] at hrev
  obtain ⟨hrest, hbefore⟩ := first_unique hrev (by simpa using hr) (by simpa using hr')
  exact ⟨List.reverse_inj.1 hbefore, List.reverse_inj.1 hrest⟩

/-! ## Runs -/

theorem consRun_append (run : List Char) (later others : List (List Char)) :
    consRun run (later ++ others) = consRun run later ++ others := by
  unfold consRun
  split <;> rfl

theorem runs_append_blank (before after : List Char) {c : Char} (hc : isBlank c) :
    runs (before ++ c :: after) = ((runs before).1, (runs before).2 ++ fieldsOf after) := by
  induction before with
  | nil => simp [runs, hc, fieldsOf]
  | cons d before ih =>
    by_cases hd : isBlank d
    · simp [runs, ih, hd, consRun_append]
    · simp [runs, ih, hd]

theorem fieldsOf_append_blank (before after : List Char) {c : Char} (hc : isBlank c) :
    fieldsOf (before ++ c :: after) = fieldsOf before ++ fieldsOf after := by
  rw [fieldsOf, runs_append_blank before after hc, consRun_append]
  rfl

theorem runs_of_not_blank {word : List Char} (h : ∀ c ∈ word, isBlank c = false) : runs word = (word, []) := by
  induction word with
  | nil => rfl
  | cons c word ih =>
    obtain ⟨hc, hw⟩ := List.forall_mem_cons.1 h
    simp [runs, ih hw, hc]

theorem fieldsOf_of_word {word : List Char} (hn : word ≠ []) (h : ∀ c ∈ word, isBlank c = false) :
    fieldsOf word = [word] := by
  simp [fieldsOf, runs_of_not_blank h, consRun, hn]

/-- Every run between blanks holds something. -/
theorem ne_nil_of_mem_runs (cs : List Char) : ∀ run ∈ (runs cs).2, run ≠ [] := by
  induction cs with
  | nil => simp [runs]
  | cons c cs ih =>
    by_cases hc : isBlank c
    · simp only [runs, hc, if_true, consRun]
      split
      · exact ih
      · next hr => exact List.forall_mem_cons.2 ⟨by simpa using hr, ih⟩
    · simpa [runs, hc] using ih

/-! ## Fields -/

theorem isWord_of_mem_fields {line field : String} (h : field ∈ fields line) : IsWord field := by
  obtain ⟨run, hr, rfl⟩ := List.mem_map.1 h
  obtain ⟨hfirst, hlater⟩ := not_isBlank_of_mem_runs line.toList
  have hne := ne_nil_of_mem_runs line.toList
  simp only [fieldsOf, consRun] at hr
  -- The run is the first one, which is a field only if it is not empty, or a later one.
  have hrun : run ≠ [] ∧ ∀ c ∈ run, isBlank c = false := by
    split at hr
    · exact ⟨hne run hr, hlater run hr⟩
    · next he =>
      rcases List.mem_cons.1 hr with rfl | hr
      · exact ⟨by simpa using he, hfirst⟩
      · exact ⟨hne run hr, hlater run hr⟩
  exact ⟨fun he => hrun.1 (by simpa using congrArg String.toList he), by simpa [Unbroken] using hrun.2⟩

/-- A word in front of a line, with a blank after it, is its first field. -/
theorem fields_lead {word : String} (h : IsWord word) (line : String) :
    fields (word ++ " " ++ line) = word :: fields line := by
  have hn : word.toList ≠ [] := fun e => h.1 (String.toList_inj.1 e)
  have hl : (word ++ " " ++ line).toList = word.toList ++ ' ' :: line.toList := by simp [String.toList_append]
  rw [fields, hl, fieldsOf_append_blank _ _ (by decide), fieldsOf_of_word hn h.2]
  simp [fields]

/-! ## The blanks around a line -/

theorem fieldsOf_dropWhile (cs : List Char) : fieldsOf (cs.dropWhile isBlank) = fieldsOf cs := by
  induction cs with
  | nil => rfl
  | cons c cs ih =>
    rw [List.dropWhile_cons]
    split
    · next hc => rw [ih, ← List.nil_append (c :: cs), fieldsOf_append_blank [] cs hc]; rfl
    · rfl

theorem fieldsOf_dropEnd (cs : List Char) : fieldsOf (dropEnd isBlank cs) = fieldsOf cs := by
  induction cs using List.reverseRecOn with
  | nil => rfl
  | append_singleton cs c ih =>
    show fieldsOf (List.rdropWhile isBlank (cs ++ [c])) = _
    rw [List.rdropWhile_concat]
    split
    · next hc =>
      rw [fieldsOf_append_blank cs [] hc]
      exact ih.trans (List.append_nil _).symm
    · rfl

theorem fields_strip (line : String) : fields (strip line) = fields line := by
  rw [fields, strip, String.toList_ofList, fieldsOf_dropEnd, fieldsOf_dropWhile, fields]

/-- Without fields there is nothing but blanks. -/
theorem all_isBlank_of_fieldsOf_eq_nil {cs : List Char} (h : fieldsOf cs = []) : ∀ c ∈ cs, isBlank c := by
  induction cs with
  | nil => simp
  | cons c cs ih =>
    by_cases hc : isBlank c
    · rw [← List.nil_append (c :: cs), fieldsOf_append_blank [] cs hc] at h
      exact List.forall_mem_cons.2 ⟨hc, ih h⟩
    · simp [fieldsOf, runs, hc, consRun] at h

/-- Nothing is left of a line without the blanks around it just if it has no fields. -/
theorem isEmpty_strip_iff (line : String) : (strip line).isEmpty ↔ fields line = [] := by
  constructor
  · intro h
    rw [← fields_strip, String.isEmpty_iff.1 h]
    rfl
  · intro h
    have hb := all_isBlank_of_fieldsOf_eq_nil (List.map_eq_nil_iff.1 h)
    have hd : line.toList.dropWhile isBlank = [] := List.dropWhile_eq_nil_iff.2 hb
    simp [strip, hd, dropEnd]

/-! ## The line feeds that end a line -/

/-- A line is this text with line feeds after it, as many as there are. -/
structure Chomped (line text : String) : Prop where
  eq_append : ∃ n, line.toList = text.toList ++ List.replicate n '\n'
  last_ne : text.toList.getLast? ≠ some '\n'

theorem dropEnd_append_replicate {cs : List Char} (h : cs.getLast? ≠ some '\n') (n : Nat) :
    dropEnd (· == '\n') (cs ++ List.replicate n '\n') = cs := by
  show List.rdropWhile (· == '\n') _ = cs
  induction n with
  | zero =>
    rw [List.replicate_zero, List.append_nil, List.rdropWhile_eq_self_iff]
    intro hne hl
    exact h ((List.getLast?_eq_some_getLast hne).trans (congrArg some (by simpa using hl)))
  | succ n ih => rw [List.replicate_succ', ← List.append_assoc, List.rdropWhile_concat, if_pos (by decide), ih]

theorem exists_dropEnd (cs : List Char) :
    (∃ n, cs = dropEnd (· == '\n') cs ++ List.replicate n '\n') ∧ (dropEnd (· == '\n') cs).getLast? ≠ some '\n' := by
  show (∃ n, cs = List.rdropWhile (· == '\n') cs ++ _) ∧ (List.rdropWhile (· == '\n') cs).getLast? ≠ _
  induction cs using List.reverseRecOn with
  | nil => exact ⟨⟨0, rfl⟩, nofun⟩
  | append_singleton cs c ih =>
    rw [List.rdropWhile_concat]
    split
    · next hc =>
      obtain ⟨⟨n, hn⟩, hl⟩ := ih
      refine ⟨⟨n + 1, ?_⟩, hl⟩
      rw [List.replicate_succ', ← List.append_assoc, ← hn, beq_iff_eq.1 hc]
    · next hc =>
      refine ⟨⟨0, by simp⟩, fun h => hc ?_⟩
      simpa using h

theorem chomp_eq_iff {line text : String} : chomp line = text ↔ Chomped line text := by
  constructor
  · rintro rfl
    obtain ⟨hn, hl⟩ := exists_dropEnd line.toList
    exact ⟨by simpa [chomp] using hn, by simpa [chomp] using hl⟩
  · rintro ⟨⟨n, hn⟩, hl⟩
    rw [chomp, hn, dropEnd_append_replicate hl, String.ofList_toList]

end NodeMemory.Text
