import Mathlib.Data.List.Nodup
import NodeMemory.Record
/-!
# Valid sets of records

What a check lets through: names that are there and free of parentheses, and no two
records with the same name and node (`check_eq_ok_iff`).
-/

namespace NodeMemory.Record

/-- What no two records of a set share. -/
def key (r : Record) : String × String := (r.name, r.node)

/-- A name that a record may have. -/
def NameFits (name : String) : Prop := name ≠ "" ∧ '(' ∉ name.toList ∧ ')' ∉ name.toList

instance : DecidablePred NameFits := fun _ => inferInstanceAs (Decidable (_ ∧ _ ∧ _))

/-- The records may go out together. -/
structure Valid (records : List Record) : Prop where
  names : ∀ r ∈ records, NameFits r.name
  keys : (records.map key).Nodup

theorem flaw?_eq_none_iff {seen : List (String × String)} {r : Record} :
    flaw? seen r = none ↔ NameFits r.name ∧ r.key ∉ seen := by
  unfold flaw? NameFits key
  by_cases he : r.name = ""
  · simp [he]
  · by_cases hp : '(' ∈ r.name.toList ∨ ')' ∈ r.name.toList
    · have : ¬ ('(' ∉ r.name.toList ∧ ')' ∉ r.name.toList) := by tauto
      simp [he, hp, this]
    · obtain ⟨h1, h2⟩ := not_or.1 hp
      simp [he, h1, h2]

/-- The names and nodes seen so far count as those of earlier records. -/
theorem checkFrom_eq_ok_iff {seen : List (String × String)} {records : List Record} :
    checkFrom seen records = .ok () ↔ Valid records ∧ ∀ r ∈ records, r.key ∉ seen := by
  induction records generalizing seen with
  | nil => simpa [checkFrom] using ⟨by simp, by simp⟩
  | cons r rs ih =>
    rw [checkFrom]
    cases hf : flaw? seen r with
    | some f =>
      have hn : ¬ (NameFits r.name ∧ r.key ∉ seen) := by rw [← flaw?_eq_none_iff, hf]; simp
      simp only [reduceCtorEq, false_iff]
      rintro ⟨hv, hs⟩
      exact hn ⟨hv.names r (by simp), hs r (by simp)⟩
    | none =>
      obtain ⟨hr, hs⟩ := flaw?_eq_none_iff.1 hf
      show checkFrom (r.key :: seen) rs = .ok () ↔ _
      rw [ih]
      constructor
      · rintro ⟨⟨hn, hk⟩, hrs⟩
        refine ⟨⟨List.forall_mem_cons.2 ⟨hr, hn⟩, List.nodup_cons.2 ⟨?_, hk⟩⟩, List.forall_mem_cons.2 ⟨hs, ?_⟩⟩
        · intro hm
          obtain ⟨r', hr', he⟩ := List.mem_map.1 hm
          exact hrs r' hr' (by simp [he])
        · exact fun r' hr' hm => hrs r' hr' (by simp [hm])
      · rintro ⟨⟨hn, hk⟩, hrs⟩
        obtain ⟨hrk, hk⟩ := List.nodup_cons.1 hk
        refine ⟨⟨(List.forall_mem_cons.1 hn).2, hk⟩, fun r' hr' hm => ?_⟩
        rcases List.mem_cons.1 hm with he | hm
        · exact hrk (List.mem_map.2 ⟨r', hr', he⟩)
        · exact hrs r' (by simp [hr']) hm

theorem check_eq_ok_iff {records : List Record} : check records = .ok () ↔ Valid records := by
  simp [check, checkFrom_eq_ok_iff]

theorem check_eq_error_of_not_valid {records : List Record} (h : ¬ Valid records) : ∃ flaw, check records = .error flaw := by
  cases hc : check records with
  | ok u => exact absurd (check_eq_ok_iff.1 hc) h
  | error flaw => exact ⟨flaw, rfl⟩

/-- Figures have distinct names. -/
theorem nodup_keys_ofFigures (figures : Keyed Binary64) : ((ofFigures figures).map key).Nodup := by
  have h : (ofFigures figures).map key = figures.names.map fun name => (name, "") := by
    simp [ofFigures, Keyed.names, key, Function.comp_def]
  rw [h]
  exact List.Nodup.map (fun _ _ he => congrArg Prod.fst he) figures.nodup

end NodeMemory.Record
