import Mathlib.Data.List.Forall2
import NodeMemory.Proofs.JsonGrammar
/-!
# What JSON texts hold

The grammar of JSON once more, now with what a text holds: which characters a string spells, which
values are in an array, which values stand under which names in an object. A number stays the token
that it is written as, for how exactly it is kept is up to who reads it. What the grammar with
contents admits is JSON (`HoldsText.isDocument`); it leaves out only the strings that spell half of
a surrogate pair, for they spell no character.
-/

namespace NodeMemory.JsonText

/-- What a JSON text holds. -/
inductive Content where
  | null
  | bool (b : Bool)
  | number (token : String)
  | string (text : String)
  | array (items : List Content)
  | object (members : List (String × Content))

/-! ## Characters -/

/-- The letters that may follow a backslash, each with the character that the two spell. -/
def escapes : List (Char × Char) :=
  [('"', '"'), ('\\', '\\'), ('/', '/'), ('b', '\x08'), ('f', '\x0c'), ('n', '\n'), ('r', '\r'), ('t', '\t')]

/-- The number of a hexadecimal digit. -/
def hexValue? (c : Char) : Option Nat :=
  ("0123456789abcdef".toList.idxOf? c).or ("0123456789ABCDEF".toList.idxOf? c)

/-- The number that hexadecimal digits are. -/
def code? (digits : List Char) : Option Nat := digits.foldlM (fun n c => (hexValue? c).map (16 * n + ·)) 0

/-- The first half of a surrogate pair. -/
def IsHigh (n : Nat) : Prop := 0xD800 ≤ n ∧ n < 0xDC00

/-- The second half of a surrogate pair. -/
def IsLow (n : Nat) : Prop := 0xDC00 ≤ n ∧ n < 0xE000

instance (n : Nat) : Decidable (IsHigh n) := inferInstanceAs (Decidable (_ ∧ _))

instance (n : Nat) : Decidable (IsLow n) := inferInstanceAs (Decidable (_ ∧ _))

/-- The character that a surrogate pair stands for. -/
def ofPair (high low : Nat) : Char := Char.ofNat (0x10000 + (high - 0xD800) * 0x400 + (low - 0xDC00))

/-- Characters of a text spell one character of a string. -/
inductive Spells : List Char → Char → Prop
  | plain {c : Char} : 0x20 ≤ c.toNat → c ≠ '"' → c ≠ '\\' → Spells [c] c
  | escape {e c : Char} : (e, c) ∈ escapes → Spells ['\\', e] c
  | code {i j k l : Char} {n : Nat} : code? [i, j, k, l] = some n → ¬ IsHigh n → ¬ IsLow n →
      Spells ['\\', 'u', i, j, k, l] (Char.ofNat n)
  | pair {i j k l i' j' k' l' : Char} {high low : Nat} : code? [i, j, k, l] = some high → IsHigh high →
      code? [i', j', k', l'] = some low → IsLow low →
      Spells ['\\', 'u', i, j, k, l, '\\', 'u', i', j', k', l'] (ofPair high low)

/-- A text spells a string, between quotes. -/
def HoldsString (text : List Char) (s : String) : Prop :=
  ∃ spellings : List (List Char), List.Forall₂ Spells spellings s.toList ∧ text = '"' :: (spellings.flatten ++ ['"'])

/-! ## Values -/

mutual

inductive HoldsValue : List Char → Content → Prop
  | null : HoldsValue ['n', 'u', 'l', 'l'] .null
  | true : HoldsValue ['t', 'r', 'u', 'e'] (.bool true)
  | false : HoldsValue ['f', 'a', 'l', 's', 'e'] (.bool false)
  | number {token : String} : IsNumber token.toList → HoldsValue token.toList (.number token)
  | string {text : List Char} {s : String} : HoldsString text s → HoldsValue text (.string s)
  | emptyArray {blank : List Char} : IsBlank blank → HoldsValue ('[' :: (blank ++ [']'])) (.array [])
  | array {items : List Char} {contents : List Content} : HoldsItems items contents →
      HoldsValue ('[' :: (items ++ [']'])) (.array contents)
  | emptyObject {blank : List Char} : IsBlank blank → HoldsValue ('\x7b' :: (blank ++ ['\x7d'])) (.object [])
  | object {members : List Char} {contents : List (String × Content)} : HoldsMembers members contents →
      HoldsValue ('\x7b' :: (members ++ ['\x7d'])) (.object contents)

inductive HoldsItems : List Char → List Content → Prop
  | last {before value after : List Char} {c : Content} : IsBlank before → HoldsValue value c → IsBlank after →
      HoldsItems (before ++ (value ++ after)) [c]
  | more {before value after items : List Char} {c : Content} {contents : List Content} : IsBlank before →
      HoldsValue value c → IsBlank after → HoldsItems items contents →
      HoldsItems (before ++ (value ++ (after ++ ',' :: items))) (c :: contents)

inductive HoldsMembers : List Char → List (String × Content) → Prop
  | last {before name behind ahead value after : List Char} {s : String} {c : Content} : IsBlank before →
      HoldsString name s → IsBlank behind → IsBlank ahead → HoldsValue value c → IsBlank after →
      HoldsMembers (before ++ (name ++ (behind ++ ':' :: (ahead ++ (value ++ after))))) [(s, c)]
  | more {before name behind ahead value after members : List Char} {s : String} {c : Content}
      {contents : List (String × Content)} : IsBlank before → HoldsString name s → IsBlank behind → IsBlank ahead →
      HoldsValue value c → IsBlank after → HoldsMembers members contents →
      HoldsMembers (before ++ (name ++ (behind ++ ':' :: (ahead ++ (value ++ (after ++ ',' :: members))))))
        ((s, c) :: contents)

end

/-- A whole text holds one value, between blanks. -/
def HoldsText (text : List Char) (c : Content) : Prop :=
  ∃ before value after, IsBlank before ∧ HoldsValue value c ∧ IsBlank after ∧ text = before ++ (value ++ after)

/-! ## What holds something is JSON -/

theorem isHexDigit_of_hexValue? {c : Char} {n : Nat} (h : hexValue? c = some n) : IsHexDigit c := by
  have fits {digits : List Char} (hd : (digits.all "0123456789abcdefABCDEF".toList.contains) = true)
      (h : digits.idxOf? c = some n) : IsHexDigit c := by
    have hc := List.isSome_idxOf?.1 (Option.isSome_of_eq_some h)
    exact List.contains_iff_mem.1 (List.all_eq_true.1 hd c hc)
  rcases Option.or_eq_some_iff.1 h with h | ⟨-, h⟩
  · exact fits (by decide) h
  · exact fits (by decide) h

theorem isHexDigit_of_code? {digits : List Char} {n : Nat} (h : code? digits = some n) :
    ∀ c ∈ digits, IsHexDigit c := by
  unfold code? at h
  generalize 0 = read at h
  induction digits generalizing read with
  | nil => intro c hc; cases hc
  | cons d digits ih =>
    rw [List.foldlM_cons] at h
    obtain ⟨next, hd, h⟩ := Option.bind_eq_some_iff.1 h
    obtain ⟨k, hk, -⟩ := Option.map_eq_some_iff.1 hd
    exact List.forall_mem_cons.2 ⟨isHexDigit_of_hexValue? hk, ih next h⟩

theorem isSpelling_of_code? {i j k l : Char} {n : Nat} (h : code? [i, j, k, l] = some n) :
    IsSpelling ['\\', 'u', i, j, k, l] := by
  have hex := isHexDigit_of_code? h
  apply IsSpelling.code <;> apply hex <;> simp

/-- A character is spelt by one spelling of the grammar, or by the two of a surrogate pair. -/
theorem Spells.spellings {text : List Char} {c : Char} (h : Spells text c) :
    ∃ spellings : List (List Char), (∀ s ∈ spellings, IsSpelling s) ∧ text = spellings.flatten := by
  cases h with
  | plain hv hq hb => exact ⟨[[c]], by simpa using IsSpelling.plain hv hq hb, rfl⟩
  | @escape e _ he =>
    refine ⟨[['\\', e]], ?_, rfl⟩
    have hm : e ∈ escapes.map Prod.fst := List.mem_map_of_mem he
    simpa using IsSpelling.escape hm
  | @code i j k l n hn _ _ => exact ⟨[['\\', 'u', i, j, k, l]], by simpa using isSpelling_of_code? hn, rfl⟩
  | @pair i j k l i' j' k' l' high low hh _ hl _ =>
    refine ⟨[['\\', 'u', i, j, k, l], ['\\', 'u', i', j', k', l']], ?_, rfl⟩
    simpa using ⟨isSpelling_of_code? hh, isSpelling_of_code? hl⟩

theorem HoldsString.isString {text : List Char} {s : String} (h : HoldsString text s) : IsString text := by
  obtain ⟨spelt, hs, rfl⟩ := h
  generalize s.toList = cs at hs
  suffices ∃ spellings : List (List Char), (∀ s ∈ spellings, IsSpelling s) ∧ spelt.flatten = spellings.flatten by
    obtain ⟨spellings, hall, he⟩ := this
    exact ⟨spellings, hall, by rw [he]⟩
  induction hs with
  | nil => exact ⟨[], by simp, rfl⟩
  | cons hc _ ih =>
    obtain ⟨first, hfirst, rfl⟩ := hc.spellings
    obtain ⟨rest, hrest, he⟩ := ih
    exact ⟨first ++ rest, List.forall_mem_append.2 ⟨hfirst, hrest⟩, by simp [he]⟩

mutual

theorem HoldsValue.isValue {text : List Char} {c : Content} : HoldsValue text c → IsValue text
  | .null => .null
  | .true => .true
  | .false => .false
  | .number h => .number h
  | .string h => .string h.isString
  | .emptyArray h => .emptyArray h
  | .array h => .array h.isItems
  | .emptyObject h => .emptyObject h
  | .object h => .object h.isMembers

theorem HoldsItems.isItems {text : List Char} {cs : List Content} : HoldsItems text cs → IsItems text
  | .last hb hv ha => .last hb hv.isValue ha
  | .more hb hv ha hi => .more hb hv.isValue ha hi.isItems

theorem HoldsMembers.isMembers {text : List Char} {cs : List (String × Content)} : HoldsMembers text cs → IsMembers text
  | .last hb hn hh he hv ha => .last hb hn.isString hh he hv.isValue ha
  | .more hb hn hh he hv ha hm => .more hb hn.isString hh he hv.isValue ha hm.isMembers

end

/-- A text that holds something is JSON. -/
theorem HoldsText.isDocument {text : List Char} {c : Content} (h : HoldsText text c) : IsDocument text := by
  obtain ⟨before, value, after, hb, hv, ha, rfl⟩ := h
  exact ⟨before, value, after, hb, hv.isValue, ha, rfl⟩

end NodeMemory.JsonText
