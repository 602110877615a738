import Mathlib.Tactic.SplitIfs
import NodeMemory.Proofs.JsonContents
import NodeMemory.Proofs.Numerals
import NodeMemory.Proofs.SortedLists
/-!
# Which values are written as JSON

A value is written as a text of the JSON grammar if and only if all numbers in it are finite
(`isDocument_write_iff`). Strings never spoil a text, whatever is in them: they are spelt, and the
text holds what was written (`holdsValue_write`). A number that is not finite always spoils it: its
word stands outside of all strings, and no text of the grammar has the first letter of it there.
-/

namespace NodeMemory

open JsonText

/-- There is a decimal for the value. -/
def Binary64.IsFinite : Binary64 → Prop
  | .finite _ _ => True
  | _ => False

instance (x : Binary64) : Decidable x.IsFinite := by
  cases x <;> unfold Binary64.IsFinite <;> infer_instance

namespace Json

/-! ## Strings -/

/-- A control character is spelt by its number. -/
theorem spells_hex {c : Char} (hc : c.toNat < 0x20) :
    Spells ('\\' :: 'u' :: (Text.Utf8.hex 4 c.toNat).toList) c := by
  have hcode : ∀ n < 0x20, code? (Text.Utf8.hex 4 n).toList = some n := by decide
  have hcode := hcode _ hc
  obtain ⟨i, j, k, l, hdigits⟩ : ∃ i j k l, (Text.Utf8.hex 4 c.toNat).toList = [i, j, k, l] := by
    simp [Text.Utf8.hex, List.range, List.range.loop]
  rw [hdigits] at hcode ⊢
  have h := Spells.code hcode (fun h => by unfold IsHigh at h; omega) (fun h => by unfold IsLow at h; omega)
  rwa [Char.ofNat_toNat] at h

theorem spells_escape (c : Char) : Spells (escape c) c := by
  unfold escape
  split_ifs with hq hb hn hr ht hback hform hc
  · rw [hq]
    exact .escape (by simp [escapes])
  · rw [hb]
    exact .escape (by simp [escapes])
  · exact hn ▸ .escape (by simp [escapes])
  · exact hr ▸ .escape (by simp [escapes])
  · exact ht ▸ .escape (by simp [escapes])
  · exact hback ▸ .escape (by simp [escapes])
  · exact hform ▸ .escape (by simp [escapes])
  · exact spells_hex hc
  · exact .plain (Nat.le_of_not_lt hc) hq hb

/-- Whatever characters are in a string, it is written as a string that spells them. -/
theorem holdsString_writeString (s : String) : HoldsString (writeString s) s := by
  refine ⟨s.toList.map escape, ?_, by rw [writeString, List.flatMap, List.cons_append]⟩
  rw [List.forall₂_map_left_iff, List.forall₂_same]
  exact fun c _ => spells_escape c

theorem isString_writeString (s : String) : IsString (writeString s) := (holdsString_writeString s).isString

/-! ## Numbers -/

mutual

/-- The numbers in a value that are no integers of their own. -/
def numbers : Json → List Binary64
  | number x => [x]
  | array items => numbersOfItems items
  | object members => numbersOfMembers members
  | _ => []

def numbersOfItems : List Json → List Binary64
  | [] => []
  | x :: xs => numbers x ++ numbersOfItems xs

def numbersOfMembers : List (String × Json) → List Binary64
  | [] => []
  | (_, x) :: rest => numbers x ++ numbersOfMembers rest

end

theorem mem_numbersOfItems {y : Binary64} {items : List Json} :
    y ∈ numbersOfItems items ↔ ∃ x ∈ items, y ∈ numbers x := by
  induction items with
  | nil => simp [numbersOfItems]
  | cons x xs ih => simp [numbersOfItems, ih]

theorem mem_numbersOfMembers {y : Binary64} {members : List (String × Json)} :
    y ∈ numbersOfMembers members ↔ ∃ m ∈ members, y ∈ numbers m.2 := by
  induction members with
  | nil => simp [numbersOfMembers]
  | cons m rest ih => simp [numbersOfMembers, ih]

theorem isNumber_render {x : Binary64} (h : x.IsFinite) : IsNumber (Numeral.json.render x).toList := by
  cases x with
  | finite negative rank => exact Numeral.isNumber_render .json negative rank
  | nan => exact h.elim
  | infinite _ => exact h.elim

/-- No number is written with a quote. -/
theorem render_unquoted (x : Binary64) : '"' ∉ (Numeral.json.render x).toList := by
  cases x with
  | finite negative rank => exact (Numeral.isNumber_render .json negative rank).unquoted
  | nan => decide
  | infinite negative => cases negative <;> decide

/-- A number that is not finite is written as a word that is no JSON. -/
theorem exists_not_isPlain {x : Binary64} (h : ¬ x.IsFinite) :
    ∃ c ∈ (Numeral.json.render x).toList, ¬ IsPlain c := by
  cases x with
  | finite _ _ => exact absurd trivial h
  | nan => exact ⟨'N', by decide, fun hp => hp.1 rfl⟩
  | infinite negative => exact ⟨'I', by cases negative <;> decide, fun hp => hp.2 rfl⟩

/-! ## What a text is to hold -/

/-- Members are ordered by their names. -/
def nameLe {α : Type} (a b : String × α) : Bool := Sorting.textLe a.1 b.1

mutual

/-- What the text of a value holds. -/
def content : Json → Content
  | null => .null
  | bool b => .bool b
  | integer n => .number (toString n)
  | number x => .number (Numeral.json.render x)
  | string s => .string s
  | array items => .array (contentItems items)
  | object members => .object (Sorting.sortBy nameLe (contentMembers members))
  | shown _ text => .string text

def contentItems : List Json → List Content
  | [] => []
  | x :: xs => content x :: contentItems xs

def contentMembers : List (String × Json) → List (String × Content)
  | [] => []
  | (name, x) :: rest => (name, content x) :: contentMembers rest

end

theorem contentItems_eq (items : List Json) : contentItems items = items.map content := by
  induction items with
  | nil => rfl
  | cons x xs ih => rw [contentItems, ih, List.map_cons]

theorem contentMembers_eq (members : List (String × Json)) :
    contentMembers members = members.map fun (name, x) => (name, content x) := by
  induction members with
  | nil => rfl
  | cons m rest ih => rw [contentMembers, ih, List.map_cons]

/-! ## Values that are JSON -/

section Texts
variable {texts : List (List Char)} {contents : List Content} {written : List (String × List Char)}
  {members : List (String × Content)}

theorem holdsItems_commas (h : List.Forall₂ HoldsValue texts contents) (hne : texts ≠ []) :
    HoldsItems (commas texts) contents := by
  induction h with
  | nil => exact absurd rfl hne
  | cons ht hrest ih =>
    cases hrest with
    | nil => simpa [commas] using HoldsItems.last isBlank_nil ht isBlank_nil
    | cons hu hrest => exact .more isBlank_nil ht isBlank_nil (ih (by simp))

theorem holdsValue_array (h : List.Forall₂ HoldsValue texts contents) :
    HoldsValue ('[' :: commas texts ++ [']']) (.array contents) := by
  cases h with
  | nil => exact .emptyArray isBlank_nil
  | cons ht h => exact .array (holdsItems_commas (.cons ht h) (by simp))

/-- A member is written as its content. -/
def HoldsMember (text : String × List Char) (member : String × Content) : Prop :=
  text.1 = member.1 ∧ HoldsValue text.2 member.2

theorem holdsMembers_commas (h : List.Forall₂ HoldsMember written members) (hne : written ≠ []) :
    HoldsMembers (commas (written.map fun (name, text) => writeString name ++ ':' :: text)) members := by
  have h0 := isBlank_nil
  induction h with
  | nil => exact absurd rfl hne
  | @cons text member rest more ht hrest ih =>
    obtain ⟨name, text⟩ := text
    obtain ⟨_, c⟩ := member
    obtain ⟨rfl, hvalue⟩ := ht
    have hs := holdsString_writeString name
    cases hrest with
    | nil => simpa [commas] using HoldsMembers.last h0 hs h0 h0 hvalue h0
    | cons hu hrest => simpa [commas] using HoldsMembers.more h0 hs h0 h0 hvalue h0 (ih (by simp))

theorem holdsValue_writeObject (h : List.Forall₂ HoldsMember written members) :
    HoldsValue (writeObject written) (.object (Sorting.sortBy nameLe members)) := by
  have hsorted : List.Forall₂ HoldsMember (Sorting.sortBy memberLe written) (Sorting.sortBy nameLe members) :=
    Sorting.sortBy_forall₂ (fun a b a' b' ha hb => by rw [memberLe, nameLe, ha.1, hb.1]) h
  unfold writeObject
  generalize Sorting.sortBy memberLe written = ordered at hsorted
  generalize Sorting.sortBy nameLe members = contents at hsorted
  cases hsorted with
  | nil => exact .emptyObject isBlank_nil
  | cons ht h => exact .object (holdsMembers_commas (.cons ht h) (by simp))

end Texts

mutual

theorem holdsValue_write : (x : Json) → (∀ y ∈ numbers x, y.IsFinite) → HoldsValue (write x) (content x)
  | null, _ => .null
  | bool true, _ => .true
  | bool false, _ => .false
  | integer n, _ => .number (isNumber_toString n)
  | number x, h => .number (isNumber_render (h x (by simp [numbers])))
  | string s, _ => .string (holdsString_writeString s)
  | array items, h => holdsValue_array (holdsValue_writeItems items h)
  | object members, h => holdsValue_writeObject (holdsValue_writeMembers members h)
  | shown _ text, _ => .string (holdsString_writeString text)

theorem holdsValue_writeItems : (items : List Json) → (∀ y ∈ numbersOfItems items, y.IsFinite) →
    List.Forall₂ HoldsValue (writeItems items) (contentItems items)
  | [], _ => .nil
  | x :: xs, h => by
    obtain ⟨hx, hxs⟩ := List.forall_mem_append.1 h
    exact .cons (holdsValue_write x hx) (holdsValue_writeItems xs hxs)

theorem holdsValue_writeMembers : (members : List (String × Json)) → (∀ y ∈ numbersOfMembers members, y.IsFinite) →
    List.Forall₂ HoldsMember (writeMembers members) (contentMembers members)
  | [], _ => .nil
  | (_, x) :: rest, h => by
    obtain ⟨hx, hrest⟩ := List.forall_mem_append.1 h
    exact .cons ⟨rfl, holdsValue_write x hx⟩ (holdsValue_writeMembers rest hrest)

end

/-! ## Values that are not -/

/-- Strings end in the text, and nothing in it is an order to a terminal. -/
structure Tidy (text : List Char) : Prop where
  closed : Closed text
  visible : ∀ c ∈ text, 0x20 ≤ c.toNat

section Tidy

variable {a b : List Char} {c d : Char} {texts : List (List Char)} {members : List (String × List Char)}

theorem tidy_of_unquoted (h : '"' ∉ a) (hv : (a.all fun c => 0x20 ≤ c.toNat) = true) : Tidy a :=
  ⟨closed_of_unquoted h, fun _ => visible_of_all hv⟩

theorem Tidy.append (ha : Tidy a) (hb : Tidy b) : Tidy (a ++ b) :=
  ⟨ha.closed.append hb.closed, List.forall_mem_append.2 ⟨ha.visible, hb.visible⟩⟩

theorem Tidy.cons (hq : c ≠ '"') (hv : 0x20 ≤ c.toNat) (h : Tidy a) : Tidy (c :: a) :=
  ⟨h.closed.cons hq, List.forall_mem_cons.2 ⟨hv, h.visible⟩⟩

theorem tidy_of_isString (h : IsString a) : Tidy a := by
  refine ⟨h.closed, fun c hc => ?_⟩
  obtain ⟨spellings, hs, rfl⟩ := h
  have visible : ∀ c ∈ spellings.flatten, 0x20 ≤ c.toNat := by
    intro c hc
    obtain ⟨s, hm, hc⟩ := List.mem_flatten.1 hc
    exact (hs s hm).visible c hc
  rcases List.mem_cons.1 hc with rfl | hc
  · decide
  rcases List.mem_append.1 hc with hc | hc
  · exact visible c hc
  · rw [List.mem_singleton.1 hc]
    decide

theorem tidy_of_isNumber (h : IsNumber a) : Tidy a :=
  ⟨closed_of_unquoted h.unquoted, fun _ hc => (h.isNumeral hc).visible⟩

theorem tidy_render (x : Binary64) : Tidy (Numeral.json.render x).toList := by
  cases x with
  | finite negative rank => exact tidy_of_isNumber (Numeral.isNumber_render .json negative rank)
  | nan => exact tidy_of_unquoted (by decide) (by decide)
  | infinite negative => cases negative <;> exact tidy_of_unquoted (by decide) (by decide)

/-- Between brackets or braces a text stays tidy, and the same stands outside of its strings. -/
theorem Tidy.between (h : Tidy a) (hc : Tidy [c]) (hcq : c ≠ '"') (hd : Tidy [d]) :
    Tidy (c :: a ++ [d]) ∧ bare false a ⊆ bare false (c :: a ++ [d]) := by
  refine ⟨(hc.append h).append hd, fun x hx => ?_⟩
  rw [List.cons_append, bare, if_neg hcq, h.closed]
  exact List.mem_cons_of_mem _ (List.mem_append_left _ hx)

theorem tidy_commas (h : ∀ t ∈ texts, Tidy t) :
    Tidy (commas texts) ∧ ∀ t ∈ texts, bare false t ⊆ bare false (commas texts) := by
  induction texts with
  | nil => exact ⟨tidy_of_unquoted (by simp [commas]) rfl, by simp⟩
  | cons t rest ih =>
    obtain ⟨ht, hrest⟩ := List.forall_mem_cons.1 h
    obtain ⟨hc, hs⟩ := ih hrest
    cases rest with
    | nil => simpa [commas] using ht
    | cons u rest =>
      refine ⟨ht.append (hc.cons (by decide) (by decide)), fun v hv x hx => ?_⟩
      rw [commas, ht.closed, bare, if_neg (by decide)]
      rcases List.mem_cons.1 hv with rfl | hv
      · exact List.mem_append_left _ hx
      · exact List.mem_append_right _ (List.mem_cons_of_mem _ (hs v hv hx))
      · simp

theorem tidy_array (h : ∀ t ∈ texts, Tidy t) :
    Tidy ('[' :: commas texts ++ [']']) ∧ ∀ t ∈ texts, bare false t ⊆ bare false ('[' :: commas texts ++ [']']) := by
  obtain ⟨hc, hs⟩ := tidy_commas h
  obtain ⟨ha, hb⟩ := hc.between (tidy_of_unquoted (a := ['[']) (by decide) (by decide)) (by decide)
    (tidy_of_unquoted (a := [']']) (by decide) (by decide))
  exact ⟨ha, fun t ht x hx => hb (hs t ht hx)⟩

theorem tidy_writeObject (h : ∀ m ∈ members, Tidy m.2) :
    Tidy (writeObject members) ∧ ∀ m ∈ members, bare false m.2 ⊆ bare false (writeObject members) := by
  have member (m : String × List Char) (hm : Tidy m.2) :
      Tidy (writeString m.1 ++ ':' :: m.2) ∧ bare false m.2 ⊆ bare false (writeString m.1 ++ ':' :: m.2) := by
    have hs := isString_writeString m.1
    refine ⟨(tidy_of_isString hs).append (hm.cons (by decide) (by decide)), fun x hx => ?_⟩
    rw [bare_of_isString hs, bare, if_neg (by decide)]
    exact List.mem_cons_of_mem _ hx
  have hp := fun m => (Sorting.sortBy_perm memberLe members).mem_iff (a := m)
  have hall : ∀ t ∈ (Sorting.sortBy memberLe members).map fun (name, text) => writeString name ++ ':' :: text,
      Tidy t := by
    intro t ht
    obtain ⟨m, hm, rfl⟩ := List.mem_map.1 ht
    exact (member m (h m ((hp m).1 hm))).1
  obtain ⟨hc, hs⟩ := tidy_commas hall
  obtain ⟨ho, hb⟩ := hc.between (tidy_of_unquoted (a := ['\x7b']) (by decide) (by decide)) (by decide)
    (tidy_of_unquoted (a := ['\x7d']) (by decide) (by decide))
  refine ⟨ho, fun m hm x hx => hb (hs _ (List.mem_map_of_mem ((hp m).2 hm)) ?_)⟩
  exact (member m (h m hm)).2 hx

end Tidy

mutual

theorem tidy_write : (x : Json) → Tidy (write x)
  | null => tidy_of_unquoted (by decide) (by decide)
  | bool true => tidy_of_unquoted (by decide) (by decide)
  | bool false => tidy_of_unquoted (by decide) (by decide)
  | integer n => tidy_of_isNumber (isNumber_toString n)
  | number x => tidy_render x
  | string s => tidy_of_isString (isString_writeString s)
  | array items => (tidy_array (tidy_writeItems items)).1
  | object members => (tidy_writeObject (tidy_writeMembers members)).1
  | shown _ text => tidy_of_isString (isString_writeString text)

theorem tidy_writeItems : (items : List Json) → ∀ t ∈ writeItems items, Tidy t
  | [] => by simp [writeItems]
  | x :: xs => List.forall_mem_cons.2 ⟨tidy_write x, tidy_writeItems xs⟩

theorem tidy_writeMembers : (members : List (String × Json)) → ∀ m ∈ writeMembers members, Tidy m.2
  | [] => by simp [writeMembers]
  | (_, x) :: rest => List.forall_mem_cons.2 ⟨tidy_write x, tidy_writeMembers rest⟩

end

/-- The word of a number stands in a text, outside of its strings. -/
def Shows (text : List Char) (y : Binary64) : Prop := (Numeral.json.render y).toList ⊆ bare false text

mutual

/-- No string hides a number. -/
theorem shows_write : (x : Json) → ∀ y ∈ numbers x, Shows (write x) y
  | null, _, hy => by simp [numbers] at hy
  | bool _, _, hy => by simp [numbers] at hy
  | integer _, _, hy => by simp [numbers] at hy
  | string _, _, hy => by simp [numbers] at hy
  | shown _ _, _, hy => by simp [numbers] at hy
  | number x, y, hy => by
    rw [List.mem_singleton.1 hy, Shows, write, bare_eq_self (render_unquoted x)]
    exact List.Subset.refl _
  | array items, y, hy => by
    obtain ⟨t, ht, hs⟩ := shows_writeItems items y hy
    intro x hx
    exact (tidy_array (tidy_writeItems items)).2 t ht (hs hx)
  | object members, y, hy => by
    obtain ⟨m, hm, hs⟩ := shows_writeMembers members y hy
    intro x hx
    exact (tidy_writeObject (tidy_writeMembers members)).2 m hm (hs hx)

theorem shows_writeItems : (items : List Json) → ∀ y ∈ numbersOfItems items, ∃ t ∈ writeItems items, Shows t y
  | [], _, hy => by simp [numbersOfItems] at hy
  | x :: xs, y, hy => by
    rcases List.mem_append.1 hy with hy | hy
    · exact ⟨_, List.mem_cons_self, shows_write x y hy⟩
    · obtain ⟨t, ht, hs⟩ := shows_writeItems xs y hy
      exact ⟨t, List.mem_cons_of_mem _ ht, hs⟩

theorem shows_writeMembers : (members : List (String × Json)) →
    ∀ y ∈ numbersOfMembers members, ∃ m ∈ writeMembers members, Shows m.2 y
  | [], _, hy => by simp [numbersOfMembers] at hy
  | (name, x) :: rest, y, hy => by
    rcases List.mem_append.1 hy with hy | hy
    · exact ⟨(name, write x), List.mem_cons_self, shows_write x y hy⟩
    · obtain ⟨m, hm, hs⟩ := shows_writeMembers rest y hy
      exact ⟨m, List.mem_cons_of_mem _ hm, hs⟩

end

/-- A value is written as JSON if and only if all numbers in it are finite. -/
theorem isDocument_write_iff (x : Json) : IsDocument (write x) ↔ ∀ y ∈ numbers x, y.IsFinite := by
  constructor
  · intro h y hy
    by_contra hf
    obtain ⟨c, hc, hp⟩ := exists_not_isPlain hf
    exact hp (h.outside.fits c (shows_write x y hy hc))
  · intro h
    exact (holdsValue_write x h).isValue.isDocument

end Json

end NodeMemory
