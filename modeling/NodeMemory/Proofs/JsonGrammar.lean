import Mathlib.Logic.Basic
/-!
# The grammar of JSON texts

Which texts are JSON, said without a reader or a writer: numbers, strings, and values inside
values with blanks between them. The grammar admits no word but the three literals, so the
letters of any other word can only stand inside a string. That is used to tell that a text is not
JSON: `bare` is what is left of a text without its strings.
-/

namespace NodeMemory.JsonText

/-! ## Numbers -/

def IsDigits (text : List Char) : Prop := text ≠ [] ∧ ∀ c ∈ text, c.isDigit

/-- Digits without a zero in front of them. -/
def IsWhole (text : List Char) : Prop := text = ['0'] ∨ (IsDigits text ∧ text.head? ≠ some '0')

def IsFraction (text : List Char) : Prop := text = [] ∨ ∃ digits, IsDigits digits ∧ text = '.' :: digits

def IsExponent (text : List Char) : Prop :=
  text = [] ∨ ∃ e sign digits, e ∈ ['e', 'E'] ∧ sign ∈ [[], ['+'], ['-']] ∧ IsDigits digits ∧
    text = e :: (sign ++ digits)

def IsNumber (text : List Char) : Prop :=
  ∃ minus whole fraction exponent, minus ∈ [[], ['-']] ∧ IsWhole whole ∧ IsFraction fraction ∧ IsExponent exponent ∧
    text = minus ++ (whole ++ (fraction ++ exponent))

/-! ## Strings -/

def IsHexDigit (c : Char) : Prop := c ∈ "0123456789abcdefABCDEF".toList

/-- How one character may be spelt in a string. -/
inductive IsSpelling : List Char → Prop
  | plain {c : Char} : 0x20 ≤ c.toNat → c ≠ '"' → c ≠ '\\' → IsSpelling [c]
  | escape {c : Char} : c ∈ ['"', '\\', '/', 'b', 'f', 'n', 'r', 't'] → IsSpelling ['\\', c]
  | code {a b c d : Char} : IsHexDigit a → IsHexDigit b → IsHexDigit c → IsHexDigit d → IsSpelling ['\\', 'u', a, b, c, d]

def IsString (text : List Char) : Prop :=
  ∃ spellings : List (List Char), (∀ s ∈ spellings, IsSpelling s) ∧ text = '"' :: (spellings.flatten ++ ['"'])

/-! ## Values -/

/-- What may stand around a value: spaces, tabs and the two ends of a line. -/
def IsBlank (text : List Char) : Prop := ∀ c ∈ text, c ∈ [' ', '\t', '\n', '\r']

mutual

inductive IsValue : List Char → Prop
  | null : IsValue ['n', 'u', 'l', 'l']
  | true : IsValue ['t', 'r', 'u', 'e']
  | false : IsValue ['f', 'a', 'l', 's', 'e']
  | number {text : List Char} : IsNumber text → IsValue text
  | string {text : List Char} : IsString text → IsValue text
  | emptyArray {blank : List Char} : IsBlank blank → IsValue ('[' :: (blank ++ [']']))
  | array {items : List Char} : IsItems items → IsValue ('[' :: (items ++ [']']))
  | emptyObject {blank : List Char} : IsBlank blank → IsValue ('\x7b' :: (blank ++ ['\x7d']))
  | object {members : List Char} : IsMembers members → IsValue ('\x7b' :: (members ++ ['\x7d']))

/-- One value or more, with commas between them. -/
inductive IsItems : List Char → Prop
  | last {before value after : List Char} : IsBlank before → IsValue value → IsBlank after →
      IsItems (before ++ (value ++ after))
  | more {before value after items : List Char} : IsBlank before → IsValue value → IsBlank after → IsItems items →
      IsItems (before ++ (value ++ (after ++ ',' :: items)))

/-- One member or more, with commas between them. -/
inductive IsMembers : List Char → Prop
  | last {before name behind ahead value after : List Char} : IsBlank before → IsString name → IsBlank behind →
      IsBlank ahead → IsValue value → IsBlank after →
      IsMembers (before ++ (name ++ (behind ++ ':' :: (ahead ++ (value ++ after)))))
  | more {before name behind ahead value after members : List Char} : IsBlank before → IsString name → IsBlank behind →
      IsBlank ahead → IsValue value → IsBlank after → IsMembers members →
      IsMembers (before ++ (name ++ (behind ++ ':' :: (ahead ++ (value ++ (after ++ ',' :: members))))))

end

/-- A whole text: one value and the blanks around it. -/
def IsDocument (text : List Char) : Prop :=
  ∃ before value after, IsBlank before ∧ IsValue value ∧ IsBlank after ∧ text = before ++ (value ++ after)

theorem isBlank_nil : IsBlank [] := by simp [IsBlank]

theorem IsValue.isDocument {text : List Char} (h : IsValue text) : IsDocument text :=
  ⟨[], text, [], isBlank_nil, h, isBlank_nil, by simp⟩

/-! ## What stands outside strings -/

/-- A text without its strings, from outside of one or from inside. -/
def bare : Bool → List Char → List Char
  | _, [] => []
  | false, c :: cs => if c = '"' then bare true cs else c :: bare false cs
  | true, '\\' :: _ :: cs => bare true cs
  | true, c :: cs => if c = '"' then bare false cs else bare true cs

/-- Every string that begins in a text ends in it. -/
def Closed (text : List Char) : Prop := ∀ rest, bare false (text ++ rest) = bare false text ++ bare false rest

/-- Strings end, and what stands outside of them fits. -/
structure Outside (P : Char → Prop) (text : List Char) : Prop where
  closed : Closed text
  fits : ∀ c ∈ bare false text, P c

variable {P : Char → Prop} {a b : List Char}

theorem bare_of_unquoted {text : List Char} (h : '"' ∉ text) (rest : List Char) :
    bare false (text ++ rest) = text ++ bare false rest := by
  induction text with
  | nil => rfl
  | cons c cs ih =>
    obtain ⟨hc, hcs⟩ := not_or.1 (List.mem_cons.not.1 h)
    have hc : ¬ c = '"' := fun he => hc he.symm
    rw [List.cons_append, bare, if_neg hc, ih hcs]
    rfl

theorem bare_eq_self {text : List Char} (h : '"' ∉ text) : bare false text = text := by
  simpa [bare] using bare_of_unquoted h []

theorem closed_of_unquoted {text : List Char} (h : '"' ∉ text) : Closed text := by
  intro rest
  rw [bare_eq_self h, bare_of_unquoted h]

theorem Closed.append (ha : Closed a) (hb : Closed b) : Closed (a ++ b) := by
  intro rest
  rw [List.append_assoc, ha, hb, ha, List.append_assoc]

theorem Closed.cons {c : Char} (hc : c ≠ '"') (h : Closed a) : Closed (c :: a) :=
  (closed_of_unquoted (show '"' ∉ [c] by simpa using hc.symm)).append h

theorem outside_of_unquoted {text : List Char} (h : '"' ∉ text) (hP : ∀ c ∈ text, P c) : Outside P text :=
  ⟨closed_of_unquoted h, by rwa [bare_eq_self h]⟩

theorem Outside.append (ha : Outside P a) (hb : Outside P b) : Outside P (a ++ b) := by
  refine ⟨ha.closed.append hb.closed, fun c hc => ?_⟩
  rw [ha.closed] at hc
  rcases List.mem_append.1 hc with hc | hc
  · exact ha.fits c hc
  · exact hb.fits c hc

theorem Outside.cons {c : Char} (hc : c ≠ '"') (hP : P c) (h : Outside P a) : Outside P (c :: a) :=
  (outside_of_unquoted (show '"' ∉ [c] by simpa using hc.symm) (by simpa using hP)).append h

theorem bare_true_cons {c : Char} (hq : c ≠ '"') (hb : c ≠ '\\') (cs : List Char) :
    bare true (c :: cs) = bare true cs := by
  rw [bare, if_neg hq]
  intro _ _ h
  exact absurd h hb

theorem IsHexDigit.bare_cons {c : Char} (h : IsHexDigit c) (cs : List Char) : bare true (c :: cs) = bare true cs := by
  apply bare_true_cons <;> (rintro rfl; revert h; unfold IsHexDigit; decide)

/-- The spelling of a character does not end the string that it stands in. -/
theorem IsSpelling.bare_append {s : List Char} (h : IsSpelling s) (rest : List Char) :
    bare true (s ++ rest) = bare true rest := by
  cases h with
  | plain _ hq hb => exact bare_true_cons hq hb rest
  | escape _ => simp [bare]
  | code ha hb hc hd => simp [bare, ha.bare_cons, hb.bare_cons, hc.bare_cons, hd.bare_cons]

theorem visible_of_all {text : List Char} (h : (text.all fun c => 0x20 ≤ c.toNat) = true) {c : Char} (hc : c ∈ text) :
    0x20 ≤ c.toNat := by
  simpa using List.all_eq_true.1 h c hc

theorem IsHexDigit.visible {c : Char} (h : IsHexDigit c) : 0x20 ≤ c.toNat :=
  visible_of_all (show ("0123456789abcdefABCDEF".toList.all fun c => 0x20 ≤ c.toNat) = true by decide) h

/-- No control character stands for itself in a string. -/
theorem IsSpelling.visible {s : List Char} (h : IsSpelling s) : ∀ c ∈ s, 0x20 ≤ c.toNat := by
  cases h with
  | plain hv _ _ => simpa using hv
  | escape he => exact List.forall_mem_cons.2 ⟨by decide, by simpa using visible_of_all (by decide) he⟩
  | code ha hb hc hd => simp [ha.visible, hb.visible, hc.visible, hd.visible]

/-- Of a string nothing stands outside of strings. -/
theorem bare_of_isString {text : List Char} (h : IsString text) (rest : List Char) :
    bare false (text ++ rest) = bare false rest := by
  obtain ⟨spellings, hs, rfl⟩ := h
  have inside : bare true (spellings.flatten ++ '"' :: rest) = bare false rest := by
    induction spellings with
    | nil => simp [bare]
    | cons s spellings ih =>
      obtain ⟨h, hs⟩ := List.forall_mem_cons.1 hs
      rw [List.flatten_cons, List.append_assoc, h.bare_append, ih hs]
  simpa [bare] using inside

theorem bare_eq_nil {text : List Char} (h : IsString text) : bare false text = [] := by
  simpa [bare] using bare_of_isString h []

theorem IsString.closed {text : List Char} (h : IsString text) : Closed text := by
  intro rest
  rw [bare_eq_nil h, bare_of_isString h, List.nil_append]

theorem IsString.outside {text : List Char} (h : IsString text) : Outside P text :=
  ⟨h.closed, by simp [bare_eq_nil h]⟩

/-! ## Words that are no JSON -/

/-- What a number can be made of. -/
def IsNumeral (c : Char) : Prop := c.isDigit ∨ c ∈ ['-', '+', '.', 'e', 'E']

theorem isNumeral_of_mem_sign {sign : List Char} (hs : sign ∈ [[], ['+'], ['-']]) {c : Char} (hc : c ∈ sign) :
    IsNumeral c := by
  simp only [List.mem_cons, List.not_mem_nil, or_false] at hs
  rcases hs with rfl | rfl | rfl
  · cases hc
  all_goals exact .inr (by simp_all)

theorem IsNumber.isNumeral {text : List Char} (h : IsNumber text) {c : Char} (hc : c ∈ text) : IsNumeral c := by
  obtain ⟨minus, whole, fraction, exponent, hm, hw, hf, he, rfl⟩ := h
  simp only [List.mem_append] at hc
  rcases hc with hc | hc | hc | hc
  · refine isNumeral_of_mem_sign ?_ hc
    simp only [List.mem_cons, List.not_mem_nil, or_false] at hm
    rcases hm with rfl | rfl <;> simp
  · rcases hw with rfl | ⟨hw, -⟩
    · exact .inl (by simp_all)
    · exact .inl (hw.2 c hc)
  · rcases hf with rfl | ⟨digits, hd, rfl⟩
    · cases hc
    · rcases List.mem_cons.1 hc with rfl | hc
      · exact .inr (by simp)
      · exact .inl (hd.2 c hc)
  · rcases he with rfl | ⟨e, sign, digits, he, hs, hd, rfl⟩
    · cases hc
    · rcases List.mem_cons.1 hc with rfl | hc
      · exact .inr (by simp_all)
      · rcases List.mem_append.1 hc with hc | hc
        · exact isNumeral_of_mem_sign hs hc
        · exact .inl (hd.2 c hc)

theorem IsNumeral.ne {c d : Char} (h : IsNumeral c) (hd : d.isDigit = false) (hm : d ∉ ['-', '+', '.', 'e', 'E']) :
    c ≠ d := by
  rintro rfl
  rcases h with h | h
  · rw [hd] at h
    cases h
  · exact hm h

theorem IsNumeral.visible {c : Char} (h : IsNumeral c) : 0x20 ≤ c.toNat := by
  rcases h with h | h
  · have h0 : 48 ≤ c.val := by simp_all [Char.isDigit]
    exact Nat.le_trans (by decide) (UInt32.le_iff_toNat_le.1 h0)
  · exact visible_of_all (by decide) h

theorem IsNumber.unquoted {text : List Char} (h : IsNumber text) : '"' ∉ text :=
  fun hc => (h.isNumeral hc).ne (by decide) (by decide) rfl

/-- The literals and numbers have no capital letter but the one of an exponent. -/
def IsPlain (c : Char) : Prop := c ≠ 'N' ∧ c ≠ 'I'

theorem IsNumber.outside {text : List Char} (h : IsNumber text) : Outside IsPlain text :=
  outside_of_unquoted h.unquoted fun _ hc =>
    ⟨(h.isNumeral hc).ne (by decide) (by decide), (h.isNumeral hc).ne (by decide) (by decide)⟩

theorem IsBlank.outside {text : List Char} (h : IsBlank text) : Outside IsPlain text := by
  have hne {d : Char} (hd : d ∉ [' ', '\t', '\n', '\r']) : ∀ c ∈ text, c ≠ d := by
    rintro c hc rfl
    exact hd (h c hc)
  exact outside_of_unquoted (fun hc => hne (by decide) _ hc rfl) fun c hc =>
    ⟨hne (by decide) c hc, hne (by decide) c hc⟩

/-- A comma, a colon, a bracket or a brace -/
theorem Outside.point {c : Char} (h : Outside IsPlain a) (hc : c ∈ [',', ':', '[', ']', '\x7b', '\x7d']) :
    Outside IsPlain (c :: a) := by
  have hne {d : Char} (hd : d ∉ [',', ':', '[', ']', '\x7b', '\x7d']) : c ≠ d := by
    rintro rfl
    exact hd hc
  exact h.cons (hne (by decide)) ⟨hne (by decide), hne (by decide)⟩

theorem outside_nil : Outside P [] := outside_of_unquoted (by simp) (by simp)

mutual

/-- Outside its strings, a value has none of the letters that `NaN` and `Infinity` begin with. -/
theorem IsValue.outside {text : List Char} : IsValue text → Outside IsPlain text
  | .null => outside_of_unquoted (by decide) (by simp [IsPlain])
  | .true => outside_of_unquoted (by decide) (by simp [IsPlain])
  | .false => outside_of_unquoted (by decide) (by simp [IsPlain])
  | .number h => h.outside
  | .string h => h.outside
  | .emptyArray h => (h.outside.append (outside_nil.point (by simp))).point (by simp)
  | .array h => (h.outside.append (outside_nil.point (by simp))).point (by simp)
  | .emptyObject h => (h.outside.append (outside_nil.point (by simp))).point (by simp)
  | .object h => (h.outside.append (outside_nil.point (by simp))).point (by simp)

theorem IsItems.outside {text : List Char} : IsItems text → Outside IsPlain text
  | .last hb hv ha => hb.outside.append (hv.outside.append ha.outside)
  | .more hb hv ha hi => hb.outside.append (hv.outside.append (ha.outside.append (hi.outside.point (by simp))))

theorem IsMembers.outside {text : List Char} : IsMembers text → Outside IsPlain text
  | .last hb hn hh he hv ha =>
    hb.outside.append (hn.outside.append (hh.outside.append
      ((he.outside.append (hv.outside.append ha.outside)).point (by simp))))
  | .more hb hn hh he hv ha hm =>
    hb.outside.append (hn.outside.append (hh.outside.append
      ((he.outside.append (hv.outside.append (ha.outside.append (hm.outside.point (by simp))))).point (by simp))))

end

theorem IsDocument.outside {text : List Char} (h : IsDocument text) : Outside IsPlain text := by
  obtain ⟨before, value, after, hb, hv, ha, rfl⟩ := h
  exact hb.outside.append (hv.outside.append ha.outside)

end NodeMemory.JsonText
