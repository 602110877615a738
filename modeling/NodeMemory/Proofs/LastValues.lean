import Mathlib.Data.List.Induction
import Mathlib.Data.List.Nodup
import NodeMemory.Keyed
/-!
# The last values under names

A table that is written from a list of names and values has every name at the place where it
first came (`names_ofList`) and under it the value that came last (`get?_ofList`).
-/

namespace NodeMemory

/-! ## Names that come more than once -/

section Lists
variable {α : Type} [DecidableEq α]

theorem eraseDups_concat (l : List α) (a : α) :
    (l ++ [a]).eraseDups = if a ∈ l then l.eraseDups else l.eraseDups ++ [a] := by
  rw [List.eraseDups_append]
  by_cases h : a ∈ l
  · simp [h, List.removeAll]
  · simp [h, List.removeAll, List.eraseDups_cons]

theorem nodup_eraseDups (l : List α) : l.eraseDups.Nodup := by
  induction l using List.reverseRecOn with
  | nil => simp
  | append_singleton l a ih =>
    rw [eraseDups_concat]
    split
    · exact ih
    · next h =>
      refine List.nodup_append.2 ⟨ih, by simp, ?_⟩
      rintro b hb _ hc rfl
      rw [List.mem_singleton] at hc
      exact h (hc ▸ List.mem_eraseDups.1 hb)

end Lists

/-! ## Tables -/

section Tables
variable {α : Type}

theorem Entries.find?_eq_none {name : String} {l : List (String × α)} (h : name ∉ l.map Prod.fst) :
    find? name l = none := by
  rwa [← Option.not_isSome_iff_eq_none, find?_isSome_iff]

theorem Entries.find?_map_value {β : Type} (f : String → α → β) (name : String) (l : List (String × α)) :
    find? name (l.map fun (other, v) => (other, f other v)) = (find? name l).map (f name) := by
  induction l with
  | nil => rfl
  | cons e l ih =>
    by_cases he : e.1 = name
    · simp [find?, he]
    · simpa [find?, he] using ih

theorem Entries.mem_iff_find? {name : String} {v : α} {l : List (String × α)}
    (h : (l.map Prod.fst).Nodup) : (name, v) ∈ l ↔ find? name l = some v := by
  induction l with
  | nil => simp [find?]
  | cons e l ih =>
    obtain ⟨hne, hl⟩ := List.nodup_cons.1 h
    rw [List.mem_cons, ih hl, find?]
    by_cases he : e.1 = name
    · simp [he, find?_eq_none (he ▸ hne), Prod.ext_iff, eq_comm]
    · simp [he, Prod.ext_iff, Ne.symm he]

namespace Keyed

theorem mem_entries_iff {t : Keyed α} {name : String} {v : α} : (name, v) ∈ t.entries ↔ t.get? name = some v :=
  Entries.mem_iff_find? t.nodup

/-- After values are written under distinct names, they are under them, and under other names is what was. -/
theorem get?_foldl_insert {l : List (String × α)} (h : (l.map Prod.fst).Nodup) (t : Keyed α) (name : String) :
    (l.foldl (fun t e => t.insert e.1 e.2) t).get? name = (Entries.find? name l).or (t.get? name) := by
  induction l generalizing t with
  | nil => rfl
  | cons e l ih =>
    obtain ⟨hne, hl⟩ := List.nodup_cons.1 h
    rw [List.foldl_cons, ih hl, Entries.find?]
    by_cases he : e.1 = name
    · rw [if_pos he, Entries.find?_eq_none (he ▸ hne), ← he, get?_insert_self, Option.none_or, Option.some_or]
    · rw [if_neg he, get?_insert_ne _ (Ne.symm he)]

theorem ofList_concat (l : List (String × α)) (e : String × α) : ofList (l ++ [e]) = (ofList l).insert e.1 e.2 := by
  rw [ofList, List.foldl_concat]
  rfl

theorem names_ofList (l : List (String × α)) : (ofList l).names = (l.map Prod.fst).eraseDups := by
  induction l using List.reverseRecOn with
  | nil => rfl
  | append_singleton l e ih =>
    rw [ofList_concat, names_insert, ih, List.map_append, List.map_singleton, eraseDups_concat]
    simp only [List.mem_eraseDups]

/-- The last of the values that a list has for a name. -/
def lastValue? (l : List (String × α)) (name : String) : Option α :=
  (l.filter fun e => e.1 = name).getLast?.map Prod.snd

theorem get?_ofList (l : List (String × α)) (name : String) : (ofList l).get? name = lastValue? l name := by
  induction l using List.reverseRecOn with
  | nil => rfl
  | append_singleton l e ih =>
    rw [ofList_concat, lastValue?, List.filter_append]
    by_cases h : e.1 = name
    · simp [← h, get?_insert_self]
    · have hn : name ≠ e.1 := fun he => h he.symm
      rw [get?_insert_ne _ hn, ih, lastValue?]
      simp [h]

theorem lastValue?_append_cons {e : String × α} {after : List (String × α)} (h : ∀ later ∈ after, later.1 ≠ e.1)
    (before : List (String × α)) : lastValue? (before ++ e :: after) e.1 = some e.2 := by
  have hafter : after.filter (fun later => later.1 = e.1) = [] := by simpa using h
  rw [lastValue?, List.filter_append, List.filter_cons_of_pos (by simp), hafter, List.getLast?_concat]
  rfl

/-- A value is under its name if the name comes only once. -/
theorem get?_ofList_of_mem {l : List (String × α)} (h : (l.map Prod.fst).Nodup) {e : String × α} (he : e ∈ l) :
    (ofList l).get? e.1 = some e.2 := by
  obtain ⟨before, after, rfl⟩ := List.append_of_mem he
  rw [List.map_append, List.map_cons, List.nodup_append, List.nodup_cons] at h
  rw [get?_ofList]
  exact lastValue?_append_cons (fun later hl heq => h.2.1.1 (List.mem_map.2 ⟨later, hl, heq⟩)) before

/-- Values under distinct names stay where they are. -/
theorem entries_ofList {l : List (String × α)} (h : (l.map Prod.fst).Nodup) : (ofList l).entries = l := by
  induction l using List.reverseRecOn with
  | nil => rfl
  | append_singleton l e ih =>
    rw [List.map_append, List.nodup_append] at h
    obtain ⟨hl, -, hne⟩ := h
    have hn : e.1 ∉ l.map Prod.fst := fun he => hne e.1 he e.1 (by simp) rfl
    calc (ofList (l ++ [e])).entries = Entries.insert e.1 e.2 (ofList l).entries := by rw [ofList_concat]; rfl
      _ = l ++ [e] := by rw [ih hl, Entries.insert_of_notMem _ hn]

end Keyed

end Tables

end NodeMemory
