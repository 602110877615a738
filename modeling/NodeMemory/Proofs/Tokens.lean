import Mathlib.Data.List.Forall2
import Mathlib.Data.List.TakeDrop
import NodeMemory.Value
/-!
# Tokens that are no numbers

A token that stands for no number is refused as a malformed value of its table, except for
one kind: the words for infinity and not-a-number with a letter that only compares as `i`
(`Misspelt`). Such a token is taken for a number first and then refused without the table's
name (`read_of_misspelt`, `eq_badValue_of_read`).
-/

namespace NodeMemory.Value

/-! ## Letters -/

/-- The letters of the words that stand for numbers. -/
def letters : List Char := ['i', 'n', 'f', 't', 'y', 'a']

/-- A letter is written small or capital, and `i` also as one of the two letters beyond
ASCII that compare as it. -/
def Spells (c letter : Char) : Prop := c = letter ∨ c = letter.toUpper ∨ letter = 'i' ∧ (c = 'ı' ∨ c = 'İ')

/-- Small and capital letters compare as the small one, are in ASCII and begin no decimal
and no sign. -/
theorem letters_fit : ∀ letter ∈ letters, ∀ c ∈ [letter, letter.toUpper],
    fold c = letter ∧ c.toNat < 0x80 ∧ isDigit c = false ∧ c ∉ ['.', '+', '-'] := by
  simp only [letters, List.forall_mem_cons, List.not_mem_nil, false_implies, implies_true, and_true]
  refine ⟨?_, ?_, ?_, ?_, ?_, ?_⟩ <;> decide

theorem eq_toUpper_of_capital {c : Char} (h : 'A' ≤ c ∧ c ≤ 'Z') : c = (Char.ofNat (c.toNat + 32)).toUpper := by
  have hall : ∀ n < 26, Char.ofNat (65 + n) = (Char.ofNat (65 + n + 32)).toUpper := by decide
  have hlow : 65 ≤ c.toNat := h.1
  have hhigh : c.toNat ≤ 90 := h.2
  -- The small letters are 32 places after the capital ones.
  have hc := hall (c.toNat - 65) (by omega)
  rwa [Nat.add_sub_cancel' hlow, Char.ofNat_toNat] at hc

/-- What compares as a letter of the words is one of its spellings. -/
theorem fold_eq_iff {c letter : Char} (hl : letter ∈ letters) : fold c = letter ↔ Spells c letter := by
  constructor
  · intro h
    unfold fold at h
    split at h
    · next hc => exact .inr (.inl (h ▸ eq_toUpper_of_capital hc))
    · split at h
      · next hc => exact .inr (.inr ⟨h.symm, hc⟩)
      · exact .inl h
  · rintro (rfl | rfl | ⟨rfl, rfl | rfl⟩)
    · exact (letters_fit c hl c (by simp)).1
    · exact (letters_fit letter hl _ (by simp)).1
    · rfl
    · rfl

theorem Spells.ascii_iff {c letter : Char} (hl : letter ∈ letters) (h : Spells c letter) :
    c.toNat < 0x80 ↔ ¬ (c = 'ı' ∨ c = 'İ') := by
  have beyond : ∀ d ∈ ['ı', 'İ'], ¬ d.toNat < 0x80 := by simp
  constructor
  · rintro hc (rfl | rfl)
    · exact beyond _ (by simp) hc
    · exact beyond _ (by simp) hc
  · intro hn
    rcases h with rfl | rfl | ⟨-, hb⟩
    · exact (letters_fit c hl c (by simp)).2.1
    · exact (letters_fit letter hl _ (by simp)).2.1
    · exact absurd hb hn

/-- No spelling is part of a decimal or a sign. -/
theorem Spells.isDigit_eq_false {c letter : Char} (hl : letter ∈ letters) (h : Spells c letter) :
    isDigit c = false ∧ c ∉ ['.', '+', '-'] := by
  rcases h with rfl | rfl | ⟨-, rfl | rfl⟩
  · exact (letters_fit c hl c (by simp)).2.2
  · exact (letters_fit letter hl _ (by simp)).2.2
  · decide
  · decide

/-! ## Words -/

/-- The words that stand for numbers. -/
def words : List (List Char) := [['i', 'n', 'f'], ['i', 'n', 'f', 'i', 'n', 'i', 't', 'y'], ['n', 'a', 'n']]

theorem letters_of_words : ∀ word ∈ words, word ≠ [] ∧ ∀ letter ∈ word, letter ∈ letters := by simp [words, letters]

/-- A word for a number, after an optional sign, with a letter beyond ASCII in it. -/
def Misspelt (token : String) : Prop :=
  ∃ sign body, ∃ word ∈ words, token.toList = sign ++ body ∧ sign ∈ [[], ['+'], ['-']] ∧
    List.Forall₂ Spells body word ∧ ('ı' ∈ body ∨ 'İ' ∈ body)

theorem map_fold_eq_iff {body word : List Char} (hw : ∀ letter ∈ word, letter ∈ letters) :
    body.map fold = word ↔ List.Forall₂ Spells body word := by
  induction word generalizing body with
  | nil => simp
  | cons letter word ih =>
    obtain ⟨hl, hw⟩ := List.forall_mem_cons.1 hw
    cases body with
    | nil => simp
    | cons c body => rw [List.map_cons, List.cons.injEq, List.forall₂_cons, fold_eq_iff hl, ih hw]

theorem all_ascii_iff {body word : List Char} (hw : ∀ letter ∈ word, letter ∈ letters)
    (h : List.Forall₂ Spells body word) : (∀ c ∈ body, c.toNat < 0x80) ↔ ¬ ('ı' ∈ body ∨ 'İ' ∈ body) := by
  induction h with
  | nil => simp
  | @cons c letter body word hc _ ih =>
    obtain ⟨hl, hw⟩ := List.forall_mem_cons.1 hw
    rw [List.forall_mem_cons, hc.ascii_iff hl, ih hw]
    simp only [List.mem_cons, @eq_comm _ 'ı' c, @eq_comm _ 'İ' c]
    tauto

theorem word?_eq_misspelt {body : List Char} :
    word? body = some .misspelt ↔ body.map fold ∈ words ∧ ¬ ∀ c ∈ body, c.toNat < 0x80 := by
  have hall : (∀ c ∈ body, c.toNat < 0x80) ↔ (body.all fun c => c.toNat < 0x80) = true := by simp
  rw [hall, word?]
  generalize body.map fold = folded
  cases body.all fun c => decide (c.toNat < 0x80) with
  | true =>
    simp only [if_true, not_true_eq_false, and_false, iff_false]
    split <;> simp
  | false =>
    simp only [Bool.false_eq_true, if_false, not_false_eq_true, and_true]
    split <;> simp_all [words]

theorem word?_eq_misspelt_iff {body : List Char} :
    word? body = some .misspelt ↔ ∃ word ∈ words, List.Forall₂ Spells body word ∧ ('ı' ∈ body ∨ 'İ' ∈ body) := by
  rw [word?_eq_misspelt]
  constructor
  · rintro ⟨hw, ha⟩
    have hs := (map_fold_eq_iff (letters_of_words _ hw).2).1 rfl
    exact ⟨_, hw, hs, by_contra fun hn => ha ((all_ascii_iff (letters_of_words _ hw).2 hs).2 hn)⟩
  · rintro ⟨word, hw, hs, hb⟩
    have hf := (map_fold_eq_iff (letters_of_words _ hw).2).2 hs
    exact ⟨hf ▸ hw, fun ha => (all_ascii_iff (letters_of_words _ hw).2 hs).1 ha hb⟩

theorem decimal?_of_spells {body word : List Char} (hw : word ∈ words) (h : List.Forall₂ Spells body word) :
    decimal? body = none := by
  obtain ⟨hn, hl⟩ := letters_of_words word hw
  cases h with
  | nil => exact absurd rfl hn
  | @cons c letter body word hc _ =>
    obtain ⟨hd, hp⟩ := hc.isDigit_eq_false (hl letter (by simp))
    have hspan : (c :: body).span isDigit = ([], c :: body) := by
      rw [List.span_eq_takeWhile_dropWhile, List.takeWhile_cons_of_neg (by simp [hd]),
        List.dropWhile_cons_of_neg (by simp [hd])]
    simp only [decimal?, hspan]
    split
    · next he => exact absurd (List.cons.inj he).1 (by simp_all)
    · rfl

theorem decimal?_ne_misspelt {cs : List Char} : decimal? cs ≠ some .misspelt := by
  unfold decimal?
  dsimp only
  split <;> simp

/-! ## Tokens -/

/-- A sign is taken, and what stands behind it is left, unless that begins with a sign itself. -/
theorem takeSign_sign {sign body : List Char} (hs : sign ∈ [[], ['+'], ['-']])
    (hb : ∀ c ∈ body.head?, c ≠ '+' ∧ c ≠ '-') : takeSign (sign ++ body) = (decide (sign = ['-']), body) := by
  simp only [List.mem_cons, List.not_mem_nil, or_false] at hs
  rcases hs with rfl | rfl | rfl
  · rw [List.nil_append]
    unfold takeSign
    split
    · exact absurd rfl (hb '+' rfl).1
    · exact absurd rfl (hb '-' rfl).2
    · rfl
  · rfl
  · rfl

theorem takeSign_append {sign body : List Char} (hs : sign ∈ [[], ['+'], ['-']])
    (hb : ∀ c ∈ body.head?, c ≠ '+' ∧ c ≠ '-') : (takeSign (sign ++ body)).2 = body := by
  rw [takeSign_sign hs hb]

/-- The sign that a token may have is no letter of a word. -/
theorem takeSign_of_spells {sign body word : List Char} (hs : sign ∈ [[], ['+'], ['-']]) (hw : word ∈ words)
    (h : List.Forall₂ Spells body word) : (takeSign (sign ++ body)).2 = body := by
  obtain ⟨-, hl⟩ := letters_of_words word hw
  refine takeSign_append hs fun c hc => ?_
  cases h with
  | nil => cases hc
  | @cons d letter body word hd _ =>
    obtain rfl : d = c := by simpa using hc
    obtain ⟨-, hp⟩ := hd.isDigit_eq_false (hl letter (by simp))
    simp_all

theorem exists_sign (cs : List Char) : ∃ sign ∈ [[], ['+'], ['-']], cs = sign ++ (takeSign cs).2 := by
  unfold takeSign
  split
  · exact ⟨['+'], by simp, rfl⟩
  · exact ⟨['-'], by simp, rfl⟩
  · exact ⟨[], by simp, rfl⟩

theorem shape?_misspelt_iff {token : String} :
    (∃ negative, shape? token = some (negative, .misspelt)) ↔ Misspelt token := by
  constructor
  · rintro ⟨negative, h⟩
    obtain ⟨sign, hs, ht⟩ := exists_sign token.toList
    simp only [shape?, Option.map_eq_some_iff, Prod.mk.injEq, Option.or_eq_some_iff] at h
    -- What reads as a decimal is never misspelt, so the token is a word.
    obtain ⟨shape, h | ⟨-, h⟩, -, rfl⟩ := h
    · exact absurd h decimal?_ne_misspelt
    · obtain ⟨word, hw, hsp, hb⟩ := word?_eq_misspelt_iff.1 h
      exact ⟨sign, _, word, hw, ht, hs, hsp, hb⟩
  · rintro ⟨sign, body, word, hw, ht, hs, hsp, hb⟩
    have hbody := takeSign_of_spells hs hw hsp
    refine ⟨(takeSign token.toList).1, ?_⟩
    simp only [shape?, ht, hbody, decimal?_of_spells hw hsp, Option.none_or,
      word?_eq_misspelt_iff.2 ⟨word, hw, hsp, hb⟩, Option.map_some]

theorem read_eq_error_iff {table token : String} {f : Fault} : read table token = .error f ↔
    shape? token = none ∧ f = .badValue table token ∨ Misspelt token ∧ f = .misspeltValue token := by
  rw [← shape?_misspelt_iff, read]
  generalize shape? token = shape
  cases shape with
  | none => simp [eq_comm]
  | some s => obtain ⟨negative, _ | _ | _ | _⟩ := s <;> simp [eq_comm]

/-- A misspelt word is refused under a name of its own, which tells no table. -/
theorem read_of_misspelt {token : String} (h : Misspelt token) (table : String) :
    read table token = .error (.misspeltValue token) :=
  read_eq_error_iff.2 (.inr ⟨h, rfl⟩)

/-- Every other token that stands for no number is a malformed value of its table. -/
theorem eq_badValue_of_read {table token : String} {f : Fault} (h : ¬ Misspelt token)
    (hf : read table token = .error f) : f = .badValue table token := by
  rcases read_eq_error_iff.1 hf with ⟨-, rfl⟩ | ⟨hm, -⟩
  · rfl
  · exact absurd hm h

end NodeMemory.Value
