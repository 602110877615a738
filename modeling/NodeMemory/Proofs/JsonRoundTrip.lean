import NodeMemory.Proofs.JsonReading
import NodeMemory.Proofs.JsonTexts
import NodeMemory.Proofs.NumeralValues
import NodeMemory.Proofs.SortedLists
/-!
# What is written is held

A value whose numbers are finite is read back from its text (`read?_render`): strings as they are,
whatever had to be escaped, integers digit by digit, other numbers as the shortest token that is
read back as them, the members of an object in the order of their names. `Carries` says that
without the writer.
-/

namespace NodeMemory

open JsonText

/-! ## Contents that keep a value -/

/-- The token is the integer in decimal digits, without a zero too many and with no sign but a minus. -/
def IsIntegerToken (token : String) (n : ℤ) : Prop :=
  ∃ digits, token.toList = signText (n < 0) ++ digits ∧ IsWhole digits ∧ Value.placesOf digits = n.natAbs

/-- A content is that of a value. Numbers are tokens; what is only shown is its text; the members of an object may
stand in any order. -/
inductive Carries : Content → Json → Prop
  | null : Carries .null .null
  | bool {b : Bool} : Carries (.bool b) (.bool b)
  | integer {token : String} {n : ℤ} : IsIntegerToken token n → Carries (.number token) (.integer n)
  | number {token : String} {x : Binary64} : IsShortestToken token x → Carries (.number token) (.number x)
  | string {s : String} : Carries (.string s) (.string s)
  | shown {what : Foreign} {text : String} : Carries (.string text) (.shown what text)
  | array {contents : List Content} {items : List Json} : List.Forall₂ Carries contents items →
      Carries (.array contents) (.array items)
  | object {contents : List (String × Content)} {ordered members : List (String × Json)} : ordered.Perm members →
      contents.map Prod.fst = ordered.map Prod.fst →
      List.Forall₂ Carries (contents.map Prod.snd) (ordered.map Prod.snd) → Carries (.object contents) (.object members)

namespace Json

/-! ## The content is that of the value -/

theorem isIntegerToken_toString (n : ℤ) : IsIntegerToken (toString n) n := by
  refine ⟨(Nat.repr n.natAbs).toList, ?_, isWhole_repr _, Value.placesOf_repr _⟩
  rw [Int.toString_eq_repr, Int.repr_eq_if, signText]
  by_cases h : n < 0
  · rw [if_neg (by omega), if_pos (by simpa using h), String.toList_append, show (-n).toNat = n.natAbs by omega]
    rfl
  · rw [if_pos (by omega), if_neg (by simpa using h), List.nil_append, show n.toNat = n.natAbs by omega]

theorem isShortestToken_of_isFinite {x : Binary64} (h : x.IsFinite) : IsShortestToken (Numeral.json.render x) x := by
  cases x with
  | finite negative rank => exact isShortestToken_render .json negative rank
  | nan => exact h.elim
  | infinite _ => exact h.elim

/-- A member of the text has the name and the value of one that was given. -/
def CarriesMember (c : String × Content) (m : String × Json) : Prop := c.1 = m.1 ∧ Carries c.2 m.2

theorem carries_object {contents : List (String × Content)} {members : List (String × Json)}
    (h : List.Forall₂ CarriesMember contents members) :
    Carries (.object (Sorting.sortBy nameLe contents)) (.object members) := by
  have hsorted : List.Forall₂ CarriesMember (Sorting.sortBy nameLe contents) (Sorting.sortBy nameLe members) :=
    Sorting.sortBy_forall₂ (fun a b a' b' ha hb => by rw [nameLe, nameLe, ha.1, hb.1]) h
  refine .object (Sorting.sortBy_perm nameLe members) ?_ ?_
  · rw [← List.forall₂_eq_eq_eq, List.forall₂_map_left_iff, List.forall₂_map_right_iff]
    exact hsorted.imp fun _ _ h => h.1
  · rw [List.forall₂_map_left_iff, List.forall₂_map_right_iff]
    exact hsorted.imp fun _ _ h => h.2

mutual

theorem carries_content : (x : Json) → (∀ y ∈ numbers x, y.IsFinite) → Carries (content x) x
  | null, _ => .null
  | bool _, _ => .bool
  | integer n, _ => .integer (isIntegerToken_toString n)
  | number x, h => .number (isShortestToken_of_isFinite (h x (by simp [numbers])))
  | string s, _ => .string
  | array items, h => .array (carries_contentItems items h)
  | object members, h => carries_object (carries_contentMembers members h)
  | shown _ text, _ => .shown

theorem carries_contentItems : (items : List Json) → (∀ y ∈ numbersOfItems items, y.IsFinite) →
    List.Forall₂ Carries (contentItems items) items
  | [], _ => .nil
  | x :: xs, h => by
    obtain ⟨hx, hxs⟩ := List.forall_mem_append.1 h
    exact .cons (carries_content x hx) (carries_contentItems xs hxs)

theorem carries_contentMembers : (members : List (String × Json)) → (∀ y ∈ numbersOfMembers members, y.IsFinite) →
    List.Forall₂ CarriesMember (contentMembers members) members
  | [], _ => .nil
  | (_, x) :: rest, h => by
    obtain ⟨hx, hrest⟩ := List.forall_mem_append.1 h
    exact .cons ⟨rfl, carries_content x hx⟩ (carries_contentMembers rest hrest)

end

/-- A value with finite numbers is read back from its text. -/
theorem read?_render {x : Json} (h : ∀ y ∈ numbers x, y.IsFinite) : read? x.render = some (content x) := by
  rw [read?_eq_some_iff, render, String.toList_ofList]
  exact ⟨[], _, [], isBlank_nil, holdsValue_write x h, isBlank_nil, by simp⟩

end Json

end NodeMemory
