import NodeMemory.Proofs.NativeRuns
import NodeMemory.Proofs.Readings
import NodeMemory.Proofs.TableGrammar
/-!
# Names without blanks

A record name comes from a field of a line, which has no blank in it, and what is made of
the field adds none: a colon goes, a qualifier is written after an underscore, an end is put
on (`Key.unbroken_canonical`). The names of native figures are fixed. So no reading gives a name
with a blank in it (`Meminfo.unbroken_names`, `Native.names_fit`, `NodeTable.gauge_fits`,
`NodeTable.counter_fits`).
-/

namespace NodeMemory

/-! ## Labels -/

namespace Key

open Text (Unbroken isBlank)

/-- Rewriting a qualifier brings in nothing but an underscore. -/
theorem mem_rewriteFrom {state : Option Nat} {cs : List Char} {c : Char} (h : c ∈ rewriteFrom state cs) :
    c ∈ cs ∨ c = '_' := by
  induction cs generalizing state with
  | nil => cases state <;> cases h
  | cons d cs ih =>
    rw [List.mem_cons]
    rcases state with _ | _ | left
    · rw [rewriteFrom] at h
      split at h
      · rcases List.mem_cons.1 h with rfl | h
        · exact .inr rfl
        · exact (ih h).imp_left .inr
      · rcases List.mem_cons.1 h with rfl | h
        · exact .inl (.inl rfl)
        · exact (ih h).imp_left .inr
    · exact (ih h).imp_left .inr
    · rcases List.mem_cons.1 h with rfl | h
      · exact .inl (.inl rfl)
      · exact (ih h).imp_left .inr

theorem mem_of_mem_dropColon {cs : List Char} {c : Char} (h : c ∈ dropColon cs) : c ∈ cs := by
  unfold dropColon at h
  split at h
  · exact List.dropLast_subset _ h
  · exact h

theorem unbroken_canonical {raw : String} (h : Unbroken raw) : Unbroken (canonical raw) := by
  intro c hc
  rw [canonical, String.toList_ofList] at hc
  rcases mem_rewriteFrom hc with hc | rfl
  · exact h c (mem_of_mem_dropColon hc)
  · decide

end Key

/-! ## The machine's table -/

namespace Meminfo

theorem Gives.unbroken {line : String} {e : String × Binary64} (h : Gives line e) : Text.Unbroken e.1 := by
  have hlabel : ∀ label ∈ Text.fields line, Text.Unbroken (Key.canonical label) :=
    fun label hl => Key.unbroken_canonical (Text.isWord_of_mem_fields hl).2
  cases h with
  | plain hf _ => exact hlabel _ (by simp [hf])
  | scaled hf _ => exact (hlabel _ (by simp [hf])).append (by decide)

theorem unbroken_names {lines : List String} {figures : Keyed Binary64} (h : read lines = .ok figures) :
    ∀ name ∈ figures.names, Text.Unbroken name := by
  obtain ⟨given, hg⟩ := exists_holds h
  intro name hn
  rw [hg.names_eq, List.mem_eraseDups] at hn
  obtain ⟨e, he, rfl⟩ := List.mem_map.1 hn
  obtain ⟨line, -, hl⟩ := Table.exists_of_forall₂ hg.lines_give e he
  exact hl.unbroken

end Meminfo

/-! ## Native figures -/

namespace Native

theorem names_fit {s : Source} {library : Option Library} {table : Keyed Binary64}
    (h : (s.read library).1 = .ok table) : ∀ name ∈ table.names, Text.Unbroken name ∧ Record.NameFits name := by
  rw [Source.names_read h]
  decide

end Native

/-! ## The tables of a node -/

namespace NodeTable

/-- A memory line gives a gauge of the node in its second field. -/
theorem gauge_fits {raw : String} {r : Record} (h : entry gauge raw = .ok (some r)) :
    r.kind = .gauge ∧ Text.Unbroken r.name ∧ Text.IsWord r.node ∧ (Text.fields raw)[1]? = some r.node := by
  obtain ⟨-, h⟩ := entry_eq_some_iff.1 h
  refine ⟨kind_of_gauge h, ?_⟩
  unfold gauge at h
  rw [Text.fields_strip] at h
  split at h
  · next first node label token unit hf =>
    have hnode : Text.IsWord node := Text.isWord_of_mem_fields (show _ ∈ Text.fields raw by simp [hf])
    have hl : Text.IsWord label := Text.isWord_of_mem_fields (show _ ∈ Text.fields raw by simp [hf])
    have hc := Key.unbroken_canonical hl.2
    split at h
    · cases h
    · split at h
      · cases h
        exact ⟨hc.append (by decide), hnode, by simp [hf]⟩
      · split at h
        · cases h
          exact ⟨hc, hnode, by simp [hf]⟩
        · cases h
  · cases h

/-- A line of counts gives a counter of the node that the table belongs to. -/
theorem counter_fits {node raw : String} {r : Record} (h : entry (counter node) raw = .ok (some r)) :
    r.kind = .counter ∧ r.node = node ∧ endsWith r.name counterSuffix ∧ Text.Unbroken r.name := by
  obtain ⟨-, h⟩ := entry_eq_some_iff.1 h
  obtain ⟨hk, hn, he⟩ := of_counter h
  refine ⟨hk, hn, he, ?_⟩
  unfold counter at h
  rw [Text.fields_strip] at h
  split at h
  · next name token hf =>
    have hname : Text.IsWord name := Text.isWord_of_mem_fields (show _ ∈ Text.fields raw by simp [hf])
    split at h
    · cases h
    · cases h
      exact Text.Unbroken.append hname.2 (by decide)
  · cases h

end NodeTable

end NodeMemory
