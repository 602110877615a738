/-!
# Stable sorting

Insertion sort by a key. Elements with equal keys keep their order, so the result
is fixed by the list alone.
-/

namespace NodeMemory.Sorting

variable {α : Type}

/-- An element goes before the first that is not less than it. -/
def insertBy (le : α → α → Bool) (x : α) : List α → List α
  | [] => [x]
  | y :: ys => if le x y then x :: y :: ys else y :: insertBy le x ys

def sortBy (le : α → α → Bool) : List α → List α
  | [] => []
  | x :: xs => insertBy le x (sortBy le xs)

/-- Texts are ordered by their code points. -/
def textLe (a b : String) : Bool := decide (a ≤ b)

/-- Pairs of texts are ordered by the first, then the second. -/
def pairLe (a b : String × String) : Bool :=
  if a.1 = b.1 then textLe a.2 b.2 else textLe a.1 b.1

def sortTexts (l : List String) : List String := sortBy textLe l

theorem insertBy_perm (le : α → α → Bool) (x : α) (l : List α) : (insertBy le x l).Perm (x :: l) := by
  induction l with
  | nil => exact .refl _
  | cons y ys ih =>
    simp only [insertBy]
    split
    · exact .refl _
    · exact (ih.cons y).trans (.swap x y ys)

/-- Sorting loses nothing and adds nothing. -/
theorem sortBy_perm (le : α → α → Bool) (l : List α) : (sortBy le l).Perm l := by
  induction l with
  | nil => exact .refl _
  | cons x xs ih => exact (insertBy_perm le x _).trans (ih.cons x)

theorem insertBy_pairwise {le : α → α → Bool} (trans : ∀ a b c, le a b → le b c → le a c)
    (total : ∀ a b, le a b || le b a) (x : α) {l : List α} (h : l.Pairwise fun a b => le a b) :
    (insertBy le x l).Pairwise fun a b => le a b := by
  induction l with
  | nil => simp [insertBy]
  | cons y ys ih =>
    obtain ⟨hy, hys⟩ := List.pairwise_cons.1 h
    simp only [insertBy]
    split
    · rename_i hxy
      refine List.pairwise_cons.2 ⟨fun z hz => ?_, h⟩
      rcases List.mem_cons.1 hz with rfl | hz
      · exact hxy
      · exact trans x y z hxy (hy z hz)
    · rename_i hxy
      refine List.pairwise_cons.2 ⟨fun z hz => ?_, ih hys⟩
      rcases List.mem_cons.1 ((insertBy_perm le x ys).mem_iff.1 hz) with rfl | hz
      · simpa [hxy] using total z y
      · exact hy z hz

/-- By an order that compares any two, the result is in ascending order. -/
theorem sortBy_pairwise {le : α → α → Bool} (trans : ∀ a b c, le a b → le b c → le a c)
    (total : ∀ a b, le a b || le b a) (l : List α) : (sortBy le l).Pairwise fun a b => le a b := by
  induction l with
  | nil => exact .nil
  | cons x xs ih => exact insertBy_pairwise trans total x ih

end NodeMemory.Sorting
