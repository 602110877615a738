/-!
# Values under names

A table of values under distinct names, in the order in which the names first
came. Writing to a name that is there replaces its value and moves nothing
(`names_insert`).
-/

namespace NodeMemory

namespace Entries

variable {α : Type}

/-- The value under a name. -/
def find? (name : String) : List (String × α) → Option α
  | [] => none
  | (other, v) :: rest => if other = name then some v else find? name rest

/-- The value under a name is replaced, or the name is added at the end. -/
def insert (name : String) (value : α) : List (String × α) → List (String × α)
  | [] => [(name, value)]
  | (other, v) :: rest =>
    if other = name then (other, value) :: rest else (other, v) :: insert name value rest

theorem names_insert (name : String) (value : α) (l : List (String × α)) :
    (insert name value l).map Prod.fst =
      if name ∈ l.map Prod.fst then l.map Prod.fst else l.map Prod.fst ++ [name] := by
  induction l with
  | nil => simp [insert]
  | cons e l ih =>
    obtain ⟨other, v⟩ := e
    by_cases h : other = name
    · simp [insert, h]
    · have h' : name ≠ other := fun e => h e.symm
      simp only [insert, h, if_false, List.map_cons, ih, List.mem_cons, h', false_or]
      split <;> simp

theorem insert_of_notMem {name : String} (value : α) {l : List (String × α)} (h : name ∉ l.map Prod.fst) :
    insert name value l = l ++ [(name, value)] := by
  induction l with
  | nil => rfl
  | cons e l ih =>
    obtain ⟨hne, hl⟩ := not_or.1 fun hm => h (List.mem_cons.2 hm)
    have hne : ¬ e.1 = name := fun he => hne he.symm
    rw [insert, if_neg hne, ih hl]
    rfl

theorem find?_insert_self (name : String) (value : α) (l : List (String × α)) :
    find? name (insert name value l) = some value := by
  induction l with
  | nil => simp [insert, find?]
  | cons e l ih => by_cases h : e.1 = name <;> simp [insert, find?, h, ih]

theorem find?_insert_ne {name other : String} (h : other ≠ name) (value : α) (l : List (String × α)) :
    find? other (insert name value l) = find? other l := by
  induction l with
  | nil => simp [insert, find?, h.symm]
  | cons e l ih =>
    by_cases he : e.1 = name
    · simp [insert, find?, he, h.symm]
    · by_cases ho : e.1 = other
      · simp [insert, find?, ho, h]
      · simp [insert, find?, he, ho, ih]

theorem find?_isSome_iff (name : String) (l : List (String × α)) :
    (find? name l).isSome ↔ name ∈ l.map Prod.fst := by
  induction l with
  | nil => simp [find?]
  | cons e l ih =>
    by_cases h : e.1 = name
    · simp [find?, h]
    · simp only [find?, h, if_false, ih, List.map_cons, List.mem_cons, Ne.symm h, false_or]

end Entries

/-- Values under distinct names, in the order in which the names first came. -/
structure Keyed (α : Type) where
  entries : List (String × α)
  nodup : (entries.map Prod.fst).Nodup

namespace Keyed

variable {α β : Type}

def empty : Keyed α := ⟨[], by simp⟩

def names (t : Keyed α) : List String := t.entries.map Prod.fst

def size (t : Keyed α) : Nat := t.entries.length

def get? (t : Keyed α) (name : String) : Option α := Entries.find? name t.entries

def contains (t : Keyed α) (name : String) : Bool := (t.get? name).isSome

/-- A value is written under a name. -/
def insert (t : Keyed α) (name : String) (value : α) : Keyed α where
  entries := Entries.insert name value t.entries
  nodup := by
    rw [Entries.names_insert]
    split
    · exact t.nodup
    · rename_i h
      rw [List.nodup_append]
      refine ⟨t.nodup, by simp, ?_⟩
      intro a ha b hb
      rw [List.mem_singleton] at hb
      subst hb
      exact fun e => h (e ▸ ha)

/-- A later value under the same name replaces an earlier one. -/
def ofList (l : List (String × α)) : Keyed α :=
  l.foldl (fun t e => t.insert e.1 e.2) empty

/-! ## What is under a name -/

theorem names_insert (t : Keyed α) (name : String) (value : α) :
    (t.insert name value).names = if name ∈ t.names then t.names else t.names ++ [name] :=
  Entries.names_insert name value t.entries

theorem get?_insert_self (t : Keyed α) (name : String) (value : α) :
    (t.insert name value).get? name = some value :=
  Entries.find?_insert_self name value t.entries

/-- Writing under one name changes nothing under another. -/
theorem get?_insert_ne (t : Keyed α) {name other : String} (h : other ≠ name) (value : α) :
    (t.insert name value).get? other = t.get? other :=
  Entries.find?_insert_ne h value t.entries

theorem contains_iff (t : Keyed α) (name : String) : t.contains name ↔ name ∈ t.names :=
  Entries.find?_isSome_iff name t.entries

end Keyed

end NodeMemory
