import Mathlib.Data.List.Forall2
import NodeMemory.Sorting
/-!
# What sorting does to a list

Sorting looks at keys alone, so lists whose elements correspond stay so when both are sorted by
keys that agree (`sortBy_forall₂`). Elements with equal keys keep their order (`filter_sortBy`).
Where no two elements have equal keys the order of the list does not matter (`sortBy_eq_of_perm`).
-/

namespace NodeMemory.Sorting

variable {α β : Type}

/-! ## The orders of texts -/

theorem textLe_trans {a b c : String} (hab : textLe a b) (hbc : textLe b c) : textLe a c := by
  simp only [textLe, decide_eq_true_eq] at *
  exact String.le_trans hab hbc

theorem textLe_total (a b : String) : textLe a b || textLe b a := by
  simpa [textLe] using String.le_total a b

theorem textLe_antisymm {a b : String} (hab : textLe a b) (hba : textLe b a) : a = b := by
  simp only [textLe, decide_eq_true_eq] at *
  exact String.le_antisymm hab hba

/-- Pairs are ordered by the first texts, and where these are equal by the second. -/
theorem pairLe_iff {a b : String × String} : pairLe a b ↔ a.1 < b.1 ∨ a.1 = b.1 ∧ a.2 ≤ b.2 := by
  rw [pairLe]
  split
  · next h => simp [h, textLe]
  · next h => simp [h, textLe, Std.lt_iff_le_and_ne]

theorem pairLe_trans {a b c : String × String} (hab : pairLe a b) (hbc : pairLe b c) : pairLe a c := by
  rw [pairLe_iff] at *
  rcases hab with hab | ⟨hab, hab'⟩ <;> rcases hbc with hbc | ⟨hbc, hbc'⟩
  · exact .inl (String.lt_trans hab hbc)
  · exact .inl (hbc ▸ hab)
  · exact .inl (hab ▸ hbc)
  · exact .inr ⟨hab.trans hbc, String.le_trans hab' hbc'⟩

theorem pairLe_total (a b : String × String) : pairLe a b || pairLe b a := by
  by_cases h : a.1 = b.1
  · simpa [pairLe, h] using textLe_total a.2 b.2
  · simpa [pairLe, h, Ne.symm h] using textLe_total a.1 b.1

theorem pairLe_antisymm {a b : String × String} (hab : pairLe a b) (hba : pairLe b a) : a = b := by
  by_cases h : a.1 = b.1
  · rw [pairLe, if_pos h] at hab
    rw [pairLe, if_pos h.symm] at hba
    exact Prod.ext h (textLe_antisymm hab hba)
  · rw [pairLe, if_neg h] at hab
    rw [pairLe, if_neg (Ne.symm h)] at hba
    exact absurd (textLe_antisymm hab hba) h

/-! ## Elements that correspond -/

section Forall₂
variable {R : α → β → Prop} {le : α → α → Bool} {le' : β → β → Bool}
  (hle : ∀ a b a' b', R a a' → R b b' → le a b = le' a' b')
include hle

theorem insertBy_forall₂ {x : α} {y : β} {l : List α} {l' : List β} (hxy : R x y) (h : List.Forall₂ R l l') :
    List.Forall₂ R (insertBy le x l) (insertBy le' y l') := by
  induction h with
  | nil => exact .cons hxy .nil
  | @cons a b l l' hab h ih =>
    rw [insertBy, insertBy, hle _ _ _ _ hxy hab]
    split
    · exact .cons hxy (.cons hab h)
    · exact .cons hab ih

theorem sortBy_forall₂ {l : List α} {l' : List β} (h : List.Forall₂ R l l') :
    List.Forall₂ R (sortBy le l) (sortBy le' l') := by
  induction h with
  | nil => exact .nil
  | cons hxy _ ih => exact insertBy_forall₂ hle hxy ih

end Forall₂

/-! ## Elements with equal keys -/

theorem filter_insertBy {le : α → α → Bool} {p : α → Bool} {x : α} {l : List α}
    (h : ∀ y ∈ l, p x → p y → le x y) : (insertBy le x l).filter p = (x :: l).filter p := by
  induction l with
  | nil => rfl
  | cons y ys ih =>
    rw [insertBy]
    split
    · rfl
    · next hle =>
      obtain ⟨hy, hys⟩ := List.forall_mem_cons.1 h
      rw [List.filter_cons, ih hys, List.filter_cons, List.filter_cons, List.filter_cons]
      by_cases hx : p x
      · have hpy : ¬p y := fun hpy => hle (hy hx hpy)
        simp [hx, hpy]
      · simp [hx]

/-- Elements that may stand in either order keep theirs. -/
theorem filter_sortBy {le : α → α → Bool} {p : α → Bool} (h : ∀ x y, p x → p y → le x y) (l : List α) :
    (sortBy le l).filter p = l.filter p := by
  induction l with
  | nil => rfl
  | cons x xs ih => rw [sortBy, filter_insertBy fun y _ => h x y, List.filter_cons, List.filter_cons, ih]

/-! ## Lists of the same elements -/

theorem sortBy_eq_of_perm {le : α → α → Bool} (trans : ∀ a b c, le a b → le b c → le a c)
    (total : ∀ a b, le a b || le b a) {l l' : List α} (hp : l.Perm l')
    (antisymm : ∀ a b, a ∈ l → b ∈ l → le a b → le b a → a = b) : sortBy le l = sortBy le l' := by
  refine List.Perm.eq_of_pairwise (fun a b ha hb => ?_) (sortBy_pairwise trans total l) (sortBy_pairwise trans total l')
    ((sortBy_perm le l).trans (hp.trans (sortBy_perm le l').symm))
  exact antisymm a b ((sortBy_perm le l).mem_iff.1 ha) (hp.mem_iff.2 ((sortBy_perm le l').mem_iff.1 hb))

end NodeMemory.Sorting
