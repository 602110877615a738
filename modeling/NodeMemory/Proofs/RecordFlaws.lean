import Mathlib.Data.List.Induction
import Mathlib.Data.Nat.Find
import Mathlib.Order.Basic
import NodeMemory.Proofs.RecordSets
/-!
# The first flaw of a list of records

A check goes through the records once and keeps the names and nodes it has met. Here it is said
without that memory what is wrong with a record, by the records before it (`Offends`), and that the
check tells the first of them with something wrong (`first_flaw_told`). The records after it have no
say, and figures under distinct names are never taken for duplicates.
-/

namespace NodeMemory.Record

/-! ## What is wrong with a record -/

/-- What is wrong with a record that comes after others. A missing name goes before a parenthesis in
it, and both before a name and node that one of the others has. -/
inductive Offends (earlier : List Record) (r : Record) : Flaw → Prop
  | noName : r.name = "" → Offends earlier r .noName
  | parenthesis : r.name ≠ "" → '(' ∈ r.name.toList ∨ ')' ∈ r.name.toList →
      Offends earlier r (.parenthesis r.name)
  | duplicate : NameFits r.name → (∃ e ∈ earlier, e.name = r.name ∧ e.node = r.node) →
      Offends earlier r (.duplicate r.name r.node)

/-- Something is wrong with the record at a place, after those before it. -/
def OffendsAt (records : List Record) (i : Nat) (flaw : Flaw) : Prop :=
  ∃ r, records[i]? = some r ∧ Offends (records.take i) r flaw

/-- The first place where something is wrong. -/
structure IsFirstFlaw (records : List Record) (i : Nat) (flaw : Flaw) : Prop where
  offends : OffendsAt records i flaw
  least : ∀ j < i, ∀ other, ¬ OffendsAt records j other

section Flaws
variable {earlier records : List Record} {r : Record} {flaw : Flaw} {i j : Nat}

/-- The latest name and node stand first among those that a check has met. -/
theorem flaw?_eq_some_iff : flaw? (earlier.map key).reverse r = some flaw ↔ Offends earlier r flaw := by
  have hmet : (r.name, r.node) ∈ (earlier.map key).reverse ↔ ∃ e ∈ earlier, e.name = r.name ∧ e.node = r.node := by
    simp [key]
  unfold flaw?
  constructor
  · intro h
    split at h
    · next hn =>
      cases h
      exact .noName (by simpa using hn)
    · next hn =>
      have hn : r.name ≠ "" := by simpa using hn
      split at h
      · next hp =>
        cases h
        exact .parenthesis hn (by simpa using hp)
      · next hp =>
        split at h
        · next hd =>
          cases h
          have hp : '(' ∉ r.name.toList ∧ ')' ∉ r.name.toList := by simpa using hp
          exact .duplicate ⟨hn, hp⟩ (hmet.1 hd)
        · cases h
  · intro h
    cases h with
    | noName hn => simp [hn]
    | parenthesis hn hp => simp [hn, hp]
    | duplicate hf hd =>
      obtain ⟨hn, hopen, hclose⟩ := hf
      simp [hn, hopen, hclose, hmet.2 hd]

theorem flaw?_eq_none_iff_not_offends :
    flaw? (earlier.map key).reverse r = none ↔ ∀ flaw, ¬ Offends earlier r flaw := by
  simp only [← flaw?_eq_some_iff, Option.eq_none_iff_forall_ne_some, ne_eq]

/-! ## A check, record by record -/

theorem checkFrom_append (seen : List (String × String)) (a b : List Record) :
    checkFrom seen (a ++ b) = (checkFrom seen a).bind fun _ => checkFrom ((a.map key).reverse ++ seen) b := by
  induction a generalizing seen with
  | nil => rfl
  | cons r a ih =>
    rw [List.cons_append, checkFrom, checkFrom]
    cases flaw? seen r with
    | some flaw => rfl
    | none => simp [ih, key]

theorem check_concat (records : List Record) (r : Record) :
    check (records ++ [r]) = (check records).bind fun _ =>
      match flaw? (records.map key).reverse r with
      | some flaw => .error flaw
      | none => .ok () := by
  rw [check, checkFrom_append, List.append_nil]
  rfl

/-- What comes after a flaw does not change it. -/
theorem check_append_of_error (h : check records = .error flaw) (later : List Record) :
    check (records ++ later) = .error flaw := by
  rw [check] at h
  rw [check, checkFrom_append, h]
  rfl

theorem offendsAt_concat : OffendsAt (records ++ [r]) i flaw ↔
    OffendsAt records i flaw ∨ i = records.length ∧ Offends records r flaw := by
  unfold OffendsAt
  rcases Nat.lt_trichotomy i records.length with hi | rfl | hi
  · rw [List.getElem?_append_left hi, List.take_append_of_le_length hi.le]
    simp [hi.ne]
  · simp
  · have hlength : (records ++ [r]).length ≤ i := by
      rw [List.length_append]
      exact hi
    rw [List.getElem?_eq_none hi.le, List.getElem?_eq_none hlength]
    simp [hi.ne']

theorem offendsAt_take (hj : j < i) : OffendsAt (records.take i) j flaw ↔ OffendsAt records j flaw := by
  unfold OffendsAt
  rw [List.getElem?_take_of_lt hj, List.take_take, Nat.min_eq_left hj.le]

theorem lt_length_of_offendsAt (h : OffendsAt records i flaw) : i < records.length := by
  obtain ⟨r, hr, -⟩ := h
  exact (List.getElem?_eq_some_iff.1 hr).1

/-- A check goes through just if nothing is wrong at any place. -/
theorem check_eq_ok_iff_not_offendsAt : check records = .ok () ↔ ∀ i flaw, ¬ OffendsAt records i flaw := by
  induction records using List.reverseRecOn with
  | nil => simp [check, checkFrom, OffendsAt]
  | append_singleton records r ih =>
    have hconcat : (∀ i flaw, ¬ OffendsAt (records ++ [r]) i flaw) ↔
        (∀ i flaw, ¬ OffendsAt records i flaw) ∧ ∀ flaw, ¬ Offends records r flaw := by
      simp only [offendsAt_concat, not_or, not_and]
      constructor
      · intro h
        exact ⟨fun i flaw => (h i flaw).1, fun flaw => (h records.length flaw).2 rfl⟩
      · intro h i flaw
        exact ⟨h.1 i flaw, fun _ => h.2 flaw⟩
    rw [hconcat, ← ih, ← flaw?_eq_none_iff_not_offends, check_concat]
    cases check records with
    | error flaw => simp [Except.bind]
    | ok u => cases flaw? (records.map key).reverse r <;> simp [Except.bind]

/-! ## The first flaw -/

theorem check_of_isFirstFlaw (h : IsFirstFlaw records i flaw) (later : List Record) :
    check (records.take (i + 1) ++ later) = .error flaw := by
  obtain ⟨r, hr, ho⟩ := h.offends
  have hbefore : check (records.take i) = .ok () := by
    refine check_eq_ok_iff_not_offendsAt.2 fun j other hj => ?_
    have hlt : j < i := (lt_length_of_offendsAt hj).trans_le (List.length_take_le i records)
    exact h.least j hlt other ((offendsAt_take hlt).1 hj)
  have htake : records.take (i + 1) = records.take i ++ [r] := by
    rw [List.take_add_one, hr, Option.toList_some]
  refine check_append_of_error ?_ later
  rw [htake, check_concat, hbefore, flaw?_eq_some_iff.2 ho]
  rfl

theorem exists_isFirstFlaw (h : check records ≠ .ok ()) : ∃ i flaw, IsFirstFlaw records i flaw := by
  classical
  have hex : ∃ i, ∃ flaw, OffendsAt records i flaw := by
    by_contra hnone
    refine h (check_eq_ok_iff_not_offendsAt.2 fun i flaw ho => hnone ⟨i, flaw, ho⟩)
  obtain ⟨flaw, hflaw⟩ := Nat.find_spec hex
  exact ⟨Nat.find hex, flaw, hflaw, fun j hj other ho => Nat.find_min hex hj ⟨other, ho⟩⟩

theorem check_eq_error_iff : check records = .error flaw ↔ ∃ i, IsFirstFlaw records i flaw := by
  have of_first {i : Nat} {flaw : Flaw} (h : IsFirstFlaw records i flaw) : check records = .error flaw := by
    rw [← check_of_isFirstFlaw h (records.drop (i + 1)), List.take_append_drop]
  constructor
  · intro h
    have hne : check records ≠ .ok () := by simp [h]
    obtain ⟨i, found, hf⟩ := exists_isFirstFlaw hne
    have hfound : found = flaw := Except.error.inj ((of_first hf).symm.trans h)
    exact ⟨i, hfound ▸ hf⟩
  · rintro ⟨i, hf⟩
    exact of_first hf

/-- Records that differ in name or node are flawed in their names alone. -/
theorem check_ne_duplicate (name node : String) (hk : (records.map key).Nodup) :
    check records ≠ .error (.duplicate name node) := by
  intro h
  obtain ⟨i, ⟨⟨r, hr, ho⟩, -⟩⟩ := check_eq_error_iff.1 h
  cases ho with
  | duplicate hf hd =>
    obtain ⟨e, he, hname, hnode⟩ := hd
    have hr : r ∈ records.drop i := List.mem_iff_getElem?.2 ⟨0, by simpa using hr⟩
    rw [← List.take_append_drop i records, List.map_append, List.nodup_append] at hk
    exact hk.2.2 _ (List.mem_map_of_mem he) _ (List.mem_map_of_mem hr) (Prod.ext hname hnode)

end Flaws

/-- **Which flaw is told.** A check goes through if and only if every name is there and free of
parentheses and no two records share name and node. Otherwise it tells what is wrong with the first
record that has something wrong, and the records after that one do not matter. In the records of
figures nothing is ever told to be a duplicate. -/
theorem first_flaw_told (records : List Record) :
    (check records = .ok () ↔
      (∀ r ∈ records, r.name ≠ "" ∧ '(' ∉ r.name.toList ∧ ')' ∉ r.name.toList) ∧
        records.Pairwise fun a b => (a.name, a.node) ≠ (b.name, b.node)) ∧
    (∀ flaw, check records = .error flaw ↔ ∃ i, IsFirstFlaw records i flaw) ∧
    (∀ i flaw, IsFirstFlaw records i flaw → ∀ later, check (records.take (i + 1) ++ later) = .error flaw) ∧
    ∀ figures name node, check (ofFigures figures) ≠ .error (.duplicate name node) := by
  refine ⟨?_, fun _ => check_eq_error_iff, fun _ _ h => check_of_isFirstFlaw h, fun figures name node => ?_⟩
  · have hkeys : (records.map key).Nodup ↔ records.Pairwise fun a b => (a.name, a.node) ≠ (b.name, b.node) :=
      List.pairwise_map
    rw [check_eq_ok_iff, ← hkeys]
    exact ⟨fun h => ⟨h.names, h.keys⟩, fun h => ⟨h.1, h.2⟩⟩
  · exact check_ne_duplicate name node (nodup_keys_ofFigures figures)

/-- One count of two nodes, and then of the first of them once more. -/
def countedTwice : List Record :=
  [⟨"numa_hit_total", .counter, .ofNat 1, "0"⟩, ⟨"numa_hit_total", .counter, .ofNat 1, "1"⟩,
    ⟨"numa_hit_total", .counter, .ofNat 2, "0"⟩, ⟨"", .gauge, .ofNat 3, "0"⟩]

/-- The third record is the first with a flaw, whatever stands in place of the fourth. -/
theorem first_flaw_told_countedTwice :
    IsFirstFlaw countedTwice 2 (.duplicate "numa_hit_total" "0") ∧
      ∀ later, check (countedTwice.take 3 ++ later) = .error (.duplicate "numa_hit_total" "0") := by
  have hclean : check (countedTwice.take 2) = .ok () := rfl
  have hfirst : IsFirstFlaw countedTwice 2 (.duplicate "numa_hit_total" "0") := by
    refine ⟨⟨_, rfl, .duplicate (by decide) ⟨_, List.mem_cons_self, rfl, rfl⟩⟩, fun j hj other ho => ?_⟩
    exact check_eq_ok_iff_not_offendsAt.1 hclean j other ((offendsAt_take hj).2 ho)
  exact ⟨hfirst, (first_flaw_told countedTwice).2.2.1 2 _ hfirst⟩

end NodeMemory.Record
