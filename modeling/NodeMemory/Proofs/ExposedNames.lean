import Mathlib.Tactic.SplitIfs
import NodeMemory.Exposition
import NodeMemory.Proofs.MetricNames
/-!
# Names in the exposition text

A metric's name is written character by character: what is not allowed is replaced, and only the
front of a name is read more strictly (`write_qualifiedName`). So two metrics of one subsystem are
written alike just when their names are alike after the replacement, and a metric of the machine
is written like one of the nodes just when its name begins with what tells the nodes
(`written_eq_iff`). Escapes, on the other hand, keep texts apart (`escapeLabels_injective`).
-/

namespace NodeMemory

namespace Exposition

/-! ## Written names -/

namespace NameClass

variable {k : NameClass} {name : String}

/-- A character as it stands in a name, after the first. -/
def kept (k : NameClass) (c : Char) : Char := if k.allows c then c else '_'

theorem allows_underscore (k : NameClass) : k.allows '_' := by cases k <;> decide

theorem allows_kept (k : NameClass) (c : Char) : k.allows (k.kept c) := by
  unfold kept
  split
  · assumption
  · exact k.allows_underscore

theorem allows_of_allowsFirst {c : Char} (h : k.allowsFirst c) : k.allows c := by
  rw [allows, h, Bool.true_or]

theorem replace_append {a : List Char} (ha : a ≠ []) (b : List Char) :
    k.replace (a ++ b) = k.replace a ++ b.map k.kept := by
  obtain ⟨c, cs, rfl⟩ := List.exists_cons_of_ne_nil ha
  simp [replace, kept]

theorem replace_of_accepts {cs : List Char} (h : k.accepts cs) : k.replace cs = cs := by
  cases cs with
  | nil => cases h
  | cons c cs =>
    simp only [accepts, Bool.and_eq_true, List.all_eq_true] at h
    rw [replace, if_pos h.1]
    congr 1
    exact (List.map_congr_left fun d hd => if_pos (h.2 d hd)).trans (List.map_id' cs)

theorem allows_of_mem_replace {cs : List Char} {c : Char} (h : c ∈ k.replace cs) : k.allows c := by
  cases cs with
  | nil => cases h
  | cons d cs =>
    rcases List.mem_cons.1 h with rfl | h
    · split
      · next hd => exact allows_of_allowsFirst hd
      · exact k.allows_underscore
    · obtain ⟨d, -, rfl⟩ := List.mem_map.1 h
      exact k.allows_kept d

/-- A name that ends in no line feed is written with the replacements, which change nothing in a
name that is fine. -/
theorem toList_write (h : name.toList.getLast? ≠ some '\n') : (k.write name).toList = k.replace name.toList := by
  unfold write passes
  split
  · next hp =>
    have ha : k.accepts name.toList := by simpa [h] using hp
    rw [replace_of_accepts ha]
  · rw [String.toList_ofList]

theorem allows_of_mem_write (h : name.toList.getLast? ≠ some '\n') {c : Char} (hc : c ∈ (k.write name).toList) :
    k.allows c := by
  rw [toList_write h] at hc
  exact allows_of_mem_replace hc

end NameClass

/-! ## Full names -/

/-- A name is there and does not end its line. -/
structure Fits (name : String) : Prop where
  ne_empty : name ≠ ""
  last : name.toList.getLast? ≠ some '\n'

theorem fits_of_notMem {name : String} (hn : name ≠ "") (h : '\n' ∉ name.toList) : Fits name :=
  ⟨hn, fun hl => h (List.mem_of_getLast? hl)⟩

theorem Fits.append {name : String} (h : Fits name) (lead : String) : Fits (lead ++ name) := by
  refine ⟨by simp [h.ne_empty], ?_⟩
  rw [String.toList_append, List.getLast?_append]
  cases hg : name.toList.getLast? with
  | none => exact absurd (by simpa using hg) h.ne_empty
  | some d => simpa [hg] using h.last

theorem Fits.qualifiedName {subsystem name : String} (h : Fits name) (scope : String) (hs : subsystem ≠ "") :
    Fits (Record.qualifiedName [scope, subsystem, name]) := by
  rw [Record.qualifiedName_eq_lead scope hs h.ne_empty]
  exact h.append _

/-- What the names of all metrics of a scope begin with in the text. -/
def front (scope : String) : List Char :=
  if scope = "" then [] else NameClass.metric.replace (scope ++ "_").toList

theorem replace_eq_map {c : Char} (hc : NameClass.metric.allowsFirst c) (cs : List Char) :
    NameClass.metric.replace (c :: cs) = (c :: cs).map NameClass.metric.kept := by
  rw [NameClass.replace, if_pos hc, List.map_cons, NameClass.kept, if_pos (NameClass.allows_of_allowsFirst hc)]
  rfl

theorem toList_write_qualifiedName {scope subsystem name : String} {c : Char} {cs : List Char}
    (hs : subsystem.toList = c :: cs) (hc : NameClass.metric.allowsFirst c) (h : Fits name) :
    (NameClass.metric.write (Record.qualifiedName [scope, subsystem, name])).toList =
      front scope ++ ((subsystem ++ "_").toList.map NameClass.metric.kept ++ name.toList.map NameClass.metric.kept) := by
  have hs0 : subsystem ≠ "" := by
    rintro rfl
    cases hs
  rw [NameClass.toList_write (h.qualifiedName scope hs0).last, Record.qualifiedName_eq_lead scope hs0 h.ne_empty,
    Record.lead, front, ← List.map_append, ← String.toList_append]
  by_cases h0 : scope = ""
  · rw [if_pos h0, if_pos h0, String.empty_append, List.nil_append]
    simp only [String.toList_append, hs, List.cons_append]
    exact replace_eq_map hc _
  · have hne : (scope ++ "_").toList ≠ [] := by simp
    rw [if_neg h0, if_neg h0, ← NameClass.replace_append hne, ← String.toList_append]
    simp only [String.append_assoc]

end Exposition

/-- A name with everything replaced that has no place in it. -/
def Record.shown (name : String) : List Char := name.toList.map Exposition.NameClass.metric.kept

/-- What tells a metric from all others of the scope: its name, behind a word where it is of the nodes. -/
def Subject.shown : Subject → String → List Char
  | machine, name => Record.shown name
  | nodes, name => ['n', 'u', 'm', 'a', '_'] ++ Record.shown name

theorem Subject.shown_eq_iff {s : Subject} {a b : String} : s.shown a = s.shown b ↔ Record.shown a = Record.shown b := by
  cases s with
  | machine => rfl
  | nodes => exact List.append_right_inj _

namespace Exposition

variable {scope : String} {s t : Subject} {a b : String}

theorem toList_write_subject (scope : String) (s : Subject) (h : Fits a) :
    (NameClass.metric.write (Record.qualifiedName [scope, s.subsystem, a])).toList =
      front scope ++ ("memory_".toList ++ s.shown a) := by
  have hsub : s.subsystem.toList = 'm' :: s.subsystem.toList.tail := by cases s <;> decide
  rw [toList_write_qualifiedName hsub (by decide) h]
  have hkept : (s.subsystem ++ "_").toList.map NameClass.metric.kept ++ Record.shown a =
      "memory_".toList ++ s.shown a := by
    cases s with
    | machine => exact congrArg (· ++ Record.shown a) (by decide)
    | nodes => exact congrArg (· ++ Record.shown a) (show _ = "memory_numa_".toList by decide)
  exact congrArg (front scope ++ ·) hkept

theorem toList_write_scrape (scope : String) (h : Fits a) :
    (NameClass.metric.write (Record.qualifiedName [scope, "scrape", a])).toList =
      front scope ++ ("scrape_".toList ++ Record.shown a) := by
  have hkept : ("scrape" ++ "_").toList.map NameClass.metric.kept = "scrape_".toList := by decide
  have hfirst : "scrape".toList = 's' :: "crape".toList := rfl
  rw [toList_write_qualifiedName hfirst (by decide) h, hkept]
  rfl

/-- When two metrics are written alike. -/
theorem write_eq_iff (scope : String) (ha : Fits a) (hb : Fits b) :
    NameClass.metric.write (Record.qualifiedName [scope, s.subsystem, a]) =
      NameClass.metric.write (Record.qualifiedName [scope, t.subsystem, b]) ↔ s.shown a = t.shown b := by
  rw [← String.toList_inj, toList_write_subject scope s ha, toList_write_subject scope t hb,
    List.append_right_inj, List.append_right_inj]

theorem write_scrape_eq_iff (scope : String) (ha : Fits a) (hb : Fits b) :
    NameClass.metric.write (Record.qualifiedName [scope, "scrape", a]) =
      NameClass.metric.write (Record.qualifiedName [scope, "scrape", b]) ↔ Record.shown a = Record.shown b := by
  rw [← String.toList_inj, toList_write_scrape scope ha, toList_write_scrape scope hb,
    List.append_right_inj, List.append_right_inj]

/-- No metric about memory is written like one about the collectors. -/
theorem write_ne_scrape (scope : String) (s : Subject) (ha : Fits a) (hb : Fits b) :
    NameClass.metric.write (Record.qualifiedName [scope, s.subsystem, a]) ≠
      NameClass.metric.write (Record.qualifiedName [scope, "scrape", b]) := by
  rw [Ne, ← String.toList_inj, toList_write_subject scope s ha, toList_write_scrape scope hb, List.append_right_inj]
  intro h
  exact absurd (congrArg List.head? h) (by simp)

/-! ## Escaped texts -/

/-- A character stands for itself, or behind a backslash what stands there tells it. -/
theorem escapeLabel_cases (c : Char) : (escapeLabel c = [c] ∧ c ≠ '\\' ∧ c ≠ '\n') ∨
    ∃ e, escapeLabel c = ['\\', e] ∧ e ≠ '\n' ∧ c = if e = 'n' then '\n' else e := by
  unfold escapeLabel escapeHelp
  split_ifs with hq hb hn
  · exact .inr ⟨'"', rfl, by decide, hq⟩
  · exact .inr ⟨'\\', rfl, by decide, hb⟩
  · exact .inr ⟨'n', rfl, by decide, hn⟩
  · exact .inl ⟨rfl, hb, hn⟩

theorem escapeLabel_append_inj {c d : Char} {x y : List Char} (h : escapeLabel c ++ x = escapeLabel d ++ y) :
    c = d ∧ x = y := by
  rcases escapeLabel_cases c with ⟨hc, hcb, -⟩ | ⟨e, hc, -, he⟩ <;>
    rcases escapeLabel_cases d with ⟨hd, hdb, -⟩ | ⟨f, hd, -, hf⟩ <;> rw [hc, hd] at h
  · simpa using h
  · exact absurd (List.cons.inj h).1 hcb
  · exact absurd (List.cons.inj h).1.symm hdb
  · obtain ⟨hef, hxy⟩ := List.cons.inj (List.cons.inj h).2
    exact ⟨by rw [he, hf, hef], hxy⟩

/-- Different texts are different between quotes. -/
theorem escapeLabels_injective : Function.Injective (List.flatMap escapeLabel) := by
  have hne (c : Char) (x : List Char) : escapeLabel c ++ x ≠ [] := by
    rcases escapeLabel_cases c with ⟨hc, -⟩ | ⟨e, hc, -⟩ <;> simp [hc]
  intro x y h
  induction x generalizing y with
  | nil =>
    cases y with
    | nil => rfl
    | cons d y => exact absurd h.symm (hne d _)
  | cons c x ih =>
    cases y with
    | nil => exact absurd h (hne c _)
    | cons d y =>
      obtain ⟨rfl, hxy⟩ := escapeLabel_append_inj h
      rw [ih hxy]

theorem newline_notMem_escapeLabels (text : List Char) : '\n' ∉ text.flatMap escapeLabel := by
  intro h
  obtain ⟨c, -, hc⟩ := List.mem_flatMap.1 h
  rcases escapeLabel_cases c with ⟨he, -, hn⟩ | ⟨e, he, hn, -⟩ <;> rw [he] at hc
  · exact hn (List.mem_singleton.1 hc).symm
  · rcases List.mem_cons.1 hc with hb | hc
    · exact absurd hb (by decide)
    · exact hn (List.mem_singleton.1 hc).symm

theorem newline_notMem_escapeHelps (text : List Char) : '\n' ∉ text.flatMap escapeHelp := by
  intro h
  obtain ⟨c, -, hc⟩ := List.mem_flatMap.1 h
  unfold escapeHelp at hc
  split_ifs at hc with hb hn
  · exact absurd hc (by decide)
  · exact absurd hc (by decide)
  · exact hn (List.mem_singleton.1 hc).symm

end Exposition

end NodeMemory
