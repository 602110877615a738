import Mathlib.Data.List.TakeWhile
import NodeMemory.Proofs.JsonGrammar
import NodeMemory.Proofs.Tokens
/-!
# The grammar of value tokens

Which tokens stand for numbers, said without a reader: after an optional sign a decimal in
ASCII digits, or a word for infinity or not-a-number in ASCII letters of any case (`IsValue`).
The reader takes the longest runs of digits. A decimal can be cut into runs in only one way
(`decimal?_of_point`, `decimal?_of_noPoint`), so it reads exactly the tokens of the grammar
(`read_iff_isValue`).
-/

namespace NodeMemory.Value

open JsonText (IsDigits IsExponent)

/-! ## The grammar -/

/-- Digits without a point, or with one: at their end, between them or in front of them. -/
inductive IsMantissa : List Char → Prop
  | whole {whole : List Char} : IsDigits whole → IsMantissa whole
  | point {whole fraction : List Char} : IsDigits whole → (∀ c ∈ fraction, c.isDigit) →
      IsMantissa (whole ++ '.' :: fraction)
  | fraction {fraction : List Char} : IsDigits fraction → IsMantissa ('.' :: fraction)

def IsDecimal (text : List Char) : Prop :=
  ∃ mantissa exponent, IsMantissa mantissa ∧ IsExponent exponent ∧ text = mantissa ++ exponent

/-- One of the words for numbers, each letter small or capital. -/
def IsName (text : List Char) : Prop :=
  ∃ word ∈ words, List.Forall₂ (fun c letter => c = letter ∨ c = letter.toUpper) text word

/-- A token that stands for a number. -/
def IsValue (token : String) : Prop :=
  ∃ sign body, sign ∈ [[], ['+'], ['-']] ∧ token.toList = sign ++ body ∧ (IsDecimal body ∨ IsName body)

/-! ## Runs of digits -/

/-- A text that goes on from a run of digits: the run ends before it. -/
def EndsRun (rest : List Char) : Prop := ∀ c ∈ rest.head?, c.isDigit = false

theorem span_isDigit {digits rest : List Char} (hd : ∀ c ∈ digits, c.isDigit) (hr : EndsRun rest) :
    (digits ++ rest).span isDigit = (digits, rest) := by
  have hd : ∀ c ∈ digits, isDigit c := hd
  rw [List.span_eq_takeWhile_dropWhile, List.takeWhile_append_of_pos hd, List.dropWhile_append_of_pos hd]
  cases rest with
  | nil => simp
  | cons c rest =>
    have hc : isDigit c = false := hr c rfl
    simp [hc]

theorem exists_run (cs : List Char) : ∃ digits rest, (∀ c ∈ digits, c.isDigit) ∧ EndsRun rest ∧ cs = digits ++ rest := by
  refine ⟨cs.takeWhile isDigit, cs.dropWhile isDigit, fun c hc => List.mem_takeWhile_imp hc, fun c hc => ?_,
    List.takeWhile_append_dropWhile.symm⟩
  have hd := List.head?_dropWhile_not isDigit cs
  rw [Option.mem_def.1 hc] at hd
  exact hd

/-! ## Exponents -/

theorem exponent?_sign {e : Char} {sign digits : List Char} (he : e ∈ ['e', 'E']) (hs : sign ∈ [[], ['+'], ['-']])
    (hd : IsDigits digits) :
    exponent? (e :: (sign ++ digits)) = some (if sign = ['-'] then -(natOf 0 digits : Int) else natOf 0 digits) := by
  have hsign : takeSign (sign ++ digits) = (decide (sign = ['-']), digits) := by
    refine takeSign_sign hs fun c hc => ?_
    have hc := hd.2 c (List.mem_of_mem_head? hc)
    constructor <;> rintro rfl <;> cases hc
  have he : e = 'e' ∨ e = 'E' := by simpa using he
  have hn : (digits.isEmpty || !digits.all isDigit) = false := by
    rw [Bool.or_eq_false_iff, Bool.not_eq_false', List.all_eq_true]
    exact ⟨by simpa using hd.1, hd.2⟩
  simp [exponent?, he, hsign, hn]

theorem exists_exponent_iff {cs : List Char} : (∃ n, exponent? cs = some n) ↔ IsExponent cs := by
  constructor
  · rintro ⟨n, h⟩
    cases cs with
    | nil => exact .inl rfl
    | cons e cs =>
      simp only [exponent?] at h
      split at h
      · next he =>
        split at h
        · cases h
        · next hd =>
          obtain ⟨sign, hs, hcs⟩ := exists_sign cs
          simp only [Bool.or_eq_true, Bool.not_eq_true', List.isEmpty_iff, not_or, Bool.not_eq_false,
            List.all_eq_true] at hd
          exact .inr ⟨e, sign, (takeSign cs).2, by simpa using he, hs, hd, by rw [← hcs]⟩
      · cases h
  · rintro (rfl | ⟨e, sign, digits, he, hs, hd, rfl⟩)
    · exact ⟨0, rfl⟩
    · exact ⟨_, exponent?_sign he hs hd⟩

/-- An exponent ends a run of digits and begins with no point. -/
theorem endsRun_of_isExponent {cs : List Char} (h : IsExponent cs) : EndsRun cs ∧ ∀ c ∈ cs.head?, c ≠ '.' := by
  rcases h with rfl | ⟨e, sign, digits, he, -, -, rfl⟩
  · exact ⟨nofun, nofun⟩
  · have hfit : e.isDigit = false ∧ e ≠ '.' := by
      rcases List.mem_pair.1 he with rfl | rfl <;> exact ⟨rfl, by decide⟩
    simpa [EndsRun] using hfit

/-! ## Decimals -/

section Cut
variable {before after rest : List Char} (hb : ∀ c ∈ before, c.isDigit)
include hb

theorem decimal?_of_point (ha : ∀ c ∈ after, c.isDigit) (hr : EndsRun rest) :
    decimal? (before ++ '.' :: (after ++ rest)) =
      if before.isEmpty && after.isEmpty then none
      else (exponent? rest).map fun e => .decimal (natOf (natOf 0 before) after) (e - after.length) := by
  have hpoint : EndsRun ('.' :: (after ++ rest)) := by simp [EndsRun]
  simp only [decimal?, span_isDigit hb hpoint, span_isDigit ha hr]

theorem decimal?_of_noPoint (hr : EndsRun rest) (hp : ∀ c ∈ rest.head?, c ≠ '.') :
    decimal? (before ++ rest) =
      if before.isEmpty then none else (exponent? rest).map fun e => .decimal (natOf 0 before) e := by
  simp only [decimal?, span_isDigit hb hr]
  split
  · exact absurd rfl (hp '.' rfl)
  · simp [natOf]

end Cut

theorem exists_decimal_iff {cs : List Char} : (∃ shape, decimal? cs = some shape) ↔ IsDecimal cs := by
  constructor
  · rintro ⟨shape, h⟩
    obtain ⟨before, rest, hb, hr, rfl⟩ := exists_run cs
    by_cases hp : ∃ more, rest = '.' :: more
    · obtain ⟨more, rfl⟩ := hp
      obtain ⟨after, rest, ha, hafter, rfl⟩ := exists_run more
      rw [decimal?_of_point hb ha hafter] at h
      split at h
      · cases h
      · next hne =>
        obtain ⟨e, he, -⟩ := Option.map_eq_some_iff.1 h
        have hrest := exists_exponent_iff.1 ⟨e, he⟩
        -- The digits stand before the point, or after it alone.
        rcases before with _ | ⟨c, before⟩
        · have hafter : after ≠ [] := by simpa using hne
          exact ⟨'.' :: after, rest, .fraction ⟨hafter, ha⟩, hrest, rfl⟩
        · exact ⟨(c :: before) ++ '.' :: after, rest, .point ⟨by simp, hb⟩ ha, hrest, by simp⟩
    · have hp : ∀ c ∈ rest.head?, c ≠ '.' := by
        rintro c hc rfl
        exact hp ⟨_, List.eq_cons_of_mem_head? hc⟩
      rw [decimal?_of_noPoint hb hr hp] at h
      split at h
      · cases h
      · next hne =>
        obtain ⟨e, he, -⟩ := Option.map_eq_some_iff.1 h
        exact ⟨before, rest, .whole ⟨by simpa using hne, hb⟩, exists_exponent_iff.1 ⟨e, he⟩, rfl⟩
  · rintro ⟨mantissa, exponent, hm, he, rfl⟩
    obtain ⟨hr, hp⟩ := endsRun_of_isExponent he
    obtain ⟨e, hexp⟩ := exists_exponent_iff.2 he
    cases hm with
    | whole hw => simp [decimal?_of_noPoint hw.2 hr hp, hw.1, hexp]
    | @point whole fraction hw hf =>
      rw [List.append_assoc, List.cons_append, decimal?_of_point hw.2 hf hr]
      simp [hw.1, hexp]
    | @fraction fraction hf =>
      have hnone : ∀ c ∈ ([] : List Char), c.isDigit := by simp
      have hpoint := decimal?_of_point hnone hf.2 hr
      rw [List.nil_append] at hpoint
      simp [hpoint, hf.1, hexp]

/-- A decimal begins with a digit or a point. -/
theorem IsDecimal.head {cs : List Char} (h : IsDecimal cs) : ∀ c ∈ cs.head?, c ≠ '+' ∧ c ≠ '-' := by
  have hdigit : ∀ c : Char, c.isDigit → c ≠ '+' ∧ c ≠ '-' := by
    intro c hc
    constructor <;> rintro rfl <;> cases hc
  obtain ⟨mantissa, exponent, hm, -, rfl⟩ := h
  cases hm with
  | whole hw =>
    obtain ⟨d, ds, rfl⟩ := List.exists_cons_of_ne_nil hw.1
    simpa using hdigit d (hw.2 d (by simp))
  | point hw hf =>
    obtain ⟨d, ds, rfl⟩ := List.exists_cons_of_ne_nil hw.1
    simpa using hdigit d (hw.2 d (by simp))
  | fraction hf => simp

/-! ## Words -/

/-- The letters of a name are the spellings in ASCII. -/
theorem spelt_iff {body word : List Char} (hw : ∀ letter ∈ word, letter ∈ letters) :
    List.Forall₂ (fun c letter => c = letter ∨ c = letter.toUpper) body word ↔
      List.Forall₂ Spells body word ∧ ¬ ('ı' ∈ body ∨ 'İ' ∈ body) := by
  induction word generalizing body with
  | nil => simp +contextual
  | cons letter word ih =>
    obtain ⟨hl, hw⟩ := List.forall_mem_cons.1 hw
    cases body with
    | nil => simp
    | cons c body =>
      have hc : (c = letter ∨ c = letter.toUpper) ↔ Spells c letter ∧ ¬ (c = 'ı' ∨ c = 'İ') := by
        constructor
        · intro h
          have hs : Spells c letter := h.elim .inl fun h => .inr (.inl h)
          have hfit := letters_fit letter hl c (by simpa using h)
          exact ⟨hs, (hs.ascii_iff hl).1 hfit.2.1⟩
        · rintro ⟨h | h | ⟨-, h⟩, hn⟩
          · exact .inl h
          · exact .inr h
          · exact absurd h hn
      rw [List.forall₂_cons, List.forall₂_cons, ih hw, hc]
      simp only [List.mem_cons, @eq_comm _ 'ı' c, @eq_comm _ 'İ' c]
      tauto

theorem exists_word?_iff {body : List Char} : (∃ shape, word? body = some shape) ↔ body.map fold ∈ words := by
  unfold word?
  generalize body.map fold = folded
  constructor
  · rintro ⟨shape, h⟩
    obtain ⟨found, h, -⟩ := Option.map_eq_some_iff.1 h
    split at h
    · simp [words]
    · simp [words]
    · simp [words]
    · cases h
  · intro h
    simp only [words, List.mem_cons, List.not_mem_nil, or_false] at h
    rcases h with rfl | rfl | rfl <;> exact ⟨_, rfl⟩

/-- A word that is not misspelt is a name. -/
theorem exists_name_iff {body : List Char} : (∃ shape, word? body = some shape ∧ shape ≠ .misspelt) ↔ IsName body := by
  constructor
  · rintro ⟨shape, h, hs⟩
    have hword := exists_word?_iff.1 ⟨shape, h⟩
    obtain ⟨-, hl⟩ := letters_of_words _ hword
    have hspells := (map_fold_eq_iff hl).1 rfl
    refine ⟨_, hword, (spelt_iff hl).2 ⟨hspells, fun hb => hs ?_⟩⟩
    rw [word?_eq_misspelt_iff.2 ⟨_, hword, hspells, hb⟩] at h
    exact (Option.some.inj h).symm
  · rintro ⟨word, hw, h⟩
    obtain ⟨-, hl⟩ := letters_of_words word hw
    obtain ⟨hspells, hb⟩ := (spelt_iff hl).1 h
    have hfold : body.map fold = word := (map_fold_eq_iff hl).2 hspells
    obtain ⟨shape, hshape⟩ := exists_word?_iff.2 (hfold ▸ hw)
    refine ⟨shape, hshape, ?_⟩
    rintro rfl
    obtain ⟨-, -, -, hb'⟩ := word?_eq_misspelt_iff.1 hshape
    exact hb hb'

/-! ## Tokens -/

theorem read_eq_ok_iff {table token : String} : (∃ x, read table token = .ok x) ↔
    ∃ negative shape, shape? token = some (negative, shape) ∧ shape ≠ .misspelt := by
  unfold read
  constructor
  · rintro ⟨x, h⟩
    split at h
    · cases h
    · cases h
    · next hs => exact ⟨_, _, hs, nofun⟩
    · next hs => exact ⟨_, _, hs, nofun⟩
    · next hs => exact ⟨_, _, hs, nofun⟩
  · rintro ⟨negative, shape, hs, hne⟩
    rw [hs]
    cases shape with
    | misspelt => exact absurd rfl hne
    | _ => exact ⟨_, rfl⟩

/-- What stands behind the sign is a decimal or a name. -/
theorem exists_shape_iff {token : String} :
    (∃ negative shape, shape? token = some (negative, shape) ∧ shape ≠ .misspelt) ↔
      IsDecimal (takeSign token.toList).2 ∨ IsName (takeSign token.toList).2 := by
  rw [← exists_decimal_iff, ← exists_name_iff]
  simp only [shape?, Option.map_eq_some_iff, Prod.mk.injEq, Option.or_eq_some_iff]
  generalize (takeSign token.toList).2 = body
  constructor
  · rintro ⟨negative, shape, ⟨_, h | ⟨-, h⟩, -, rfl⟩, hne⟩
    · exact .inl ⟨_, h⟩
    · exact .inr ⟨_, h, hne⟩
  · rintro (⟨shape, h⟩ | ⟨shape, h, hne⟩)
    · exact ⟨_, shape, ⟨shape, .inl h, rfl, rfl⟩, fun hm => decimal?_ne_misspelt (hm ▸ h)⟩
    · obtain ⟨word, hw, hs⟩ := exists_name_iff.1 ⟨shape, h, hne⟩
      have hd := decimal?_of_spells hw ((spelt_iff (letters_of_words word hw).2).1 hs).1
      exact ⟨_, shape, ⟨shape, .inr ⟨hd, h⟩, rfl, rfl⟩, hne⟩

theorem isValue_iff {token : String} :
    IsValue token ↔ IsDecimal (takeSign token.toList).2 ∨ IsName (takeSign token.toList).2 := by
  constructor
  · rintro ⟨sign, body, hs, ht, h⟩
    have hbody : (takeSign token.toList).2 = body := by
      rw [ht]
      rcases h with h | ⟨word, hw, h⟩
      · exact takeSign_append hs h.head
      · exact takeSign_of_spells hs hw ((spelt_iff (letters_of_words word hw).2).1 h).1
    exact hbody ▸ h
  · intro h
    obtain ⟨sign, hs, ht⟩ := exists_sign token.toList
    exact ⟨sign, _, hs, ht, h⟩

/-- **The grammar of values.** A token is read as a number exactly if it is one of the grammar, and
every other token is refused. -/
theorem read_iff_isValue (table token : String) :
    ((∃ x, read table token = .ok x) ↔ IsValue token) ∧ ((∃ f, read table token = .error f) ↔ ¬ IsValue token) := by
  have hread : (∃ x, read table token = .ok x) ↔ IsValue token := by
    rw [read_eq_ok_iff, exists_shape_iff, isValue_iff]
  refine ⟨hread, ?_⟩
  rw [← hread]
  cases read table token <;> simp

end NodeMemory.Value
