import Mathlib.Data.List.Infix
import NodeMemory.Family
import NodeMemory.Subject
/-!
# Names of metrics

The full name of a record's metric is the name with a lead that depends on scope and
subsystem alone (`qualifiedName_eq_lead`). A counter's family drops what ends the name
and its samples add it again, so a sample carries the full name, whatever its kind, as
long as only names that end in `_total` are taken for counters (`writtenName_eq`).
-/

namespace NodeMemory

/-! ## Ends of texts -/

theorem endsWith_iff {text suffix : String} : endsWith text suffix ↔ suffix.toList <:+ text.toList := by
  rw [endsWith, List.isPrefixOf_iff_prefix, List.reverse_prefix]

theorem endsWith_append_self (text suffix : String) : endsWith (text ++ suffix) suffix := by
  rw [endsWith_iff, String.toList_append]
  exact List.suffix_append _ _

/-- What ends a text also ends a longer text with the same end. -/
theorem endsWith_append_of_endsWith (lead : String) {text suffix : String} (h : endsWith text suffix) :
    endsWith (lead ++ text) suffix := by
  rw [endsWith_iff] at h ⊢
  rw [String.toList_append]
  exact h.trans (List.suffix_append _ _)

theorem Kind.ofName_eq_counter_iff {name : String} : Kind.ofName name = .counter ↔ endsWith name counterSuffix := by
  unfold Kind.ofName
  split <;> simp_all

namespace Family

/-- What is dropped from a counter's name can be added again. -/
theorem dropCounterSuffix_append {text : String} (h : endsWith text counterSuffix) :
    dropCounterSuffix text ++ counterSuffix = text := by
  obtain ⟨before, hb⟩ := endsWith_iff.1 h
  have ht : text = String.ofList before ++ counterSuffix := by
    rw [← String.toList_inj, String.toList_append, String.toList_ofList, hb]
  rw [dropCounterSuffix, if_pos h]
  conv_rhs => rw [ht]
  rw [String.append_left_inj, ← hb]
  congr 1
  have : text.length = before.length + counterSuffix.length := by rw [ht]; simp
  rw [this, Nat.add_sub_cancel, List.take_left' rfl]

/-- A text that is longer than what tells a counter is not all dropped. -/
theorem dropCounterSuffix_ne_empty {text : String} (h : counterSuffix.length < text.length) :
    dropCounterSuffix text ≠ "" := by
  intro he
  by_cases hs : endsWith text counterSuffix
  · have ht := dropCounterSuffix_append hs
    rw [he, String.empty_append] at ht
    rw [← ht] at h
    exact Nat.lt_irrefl _ h
  · rw [dropCounterSuffix, if_neg hs] at he
    simp [he] at h

/-- The name that the samples of a metric carry. -/
def writtenName (d : Descriptor) : String :=
  match d.kind with
  | .gauge => baseName d.fullName d.kind
  | .counter => baseName d.fullName d.kind ++ counterSuffix

/-- A counter whose full name tells it is written under its full name, and so is every
gauge. -/
theorem writtenName_eq {d : Descriptor} (h : d.kind = .counter → endsWith d.fullName counterSuffix) :
    writtenName d = d.fullName := by
  unfold writtenName
  cases hk : d.kind with
  | gauge => rfl
  | counter => exact dropCounterSuffix_append (h hk)

end Family

namespace Record

/-! ## Full names -/

/-- What all metrics of a subsystem begin with. -/
def lead (scope subsystem : String) : String :=
  (if scope = "" then "" else scope ++ "_") ++ subsystem ++ "_"

theorem qualifiedName_eq_lead {subsystem name : String} (scope : String) (hs : subsystem ≠ "") (hn : name ≠ "") :
    qualifiedName [scope, subsystem, name] = lead scope subsystem ++ name := by
  unfold qualifiedName lead
  by_cases h : scope = "" <;> simp [h, hs, hn, String.append_assoc]

end Record

namespace Subject

theorem subsystem_injective : Function.Injective subsystem := by
  intro a b h
  cases a with
  | machine =>
    cases b with
    | machine => rfl
    | nodes => exact absurd h (by decide)
  | nodes =>
    cases b with
    | machine => exact absurd h (by decide)
    | nodes => rfl

theorem name_injective : Function.Injective name := by
  intro a b h
  cases a with
  | machine =>
    cases b with
    | machine => rfl
    | nodes => exact absurd h (by decide)
  | nodes =>
    cases b with
    | machine => exact absurd h (by decide)
    | nodes => rfl

theorem subsystem_ne_empty (s : Subject) : s.subsystem ≠ "" := by cases s <;> decide

/-- No metric of a subject has the name of one about the collectors themselves. -/
theorem qualifiedName_ne_scrape (s : Subject) (scope : String) {name about : String} (hn : name ≠ "")
    (ha : about ≠ "") :
    Record.qualifiedName [scope, s.subsystem, name] ≠ Record.qualifiedName [scope, "scrape", about] := by
  intro h
  rw [Record.qualifiedName_eq_lead scope s.subsystem_ne_empty hn,
    Record.qualifiedName_eq_lead scope (by decide) ha] at h
  simp only [Record.lead, String.append_assoc, String.append_right_inj] at h
  have hh := congrArg (fun text => text.toList.head?) h
  cases s <;> simp [subsystem] at hh

/-- The lead of a subject is longer than what tells a counter. -/
theorem length_lead (s : Subject) (scope : String) : counterSuffix.length < (Record.lead scope s.subsystem).length := by
  have h : counterSuffix.length < (s.subsystem ++ "_").length := by cases s <;> decide
  simp only [Record.lead, String.length_append] at h ⊢
  omega

end Subject

end NodeMemory
