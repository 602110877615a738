import Mathlib.Data.List.Basic
import NodeMemory.Glob
/-!
# Where a pattern leads

A pattern is followed name by name from a directory on. A name without signs is taken as it is,
and a name with signs stands for those entries of the directory that it meets (`Meets`). On the
way only such paths are kept as are there; for the entries of the last directory this makes no
difference, since whatever lists an entry is a directory, and so is all above it (`mem_expandFrom`).
-/

namespace NodeMemory

namespace Path

theorem hasNul_child (p : Path) (name : String) : (p.child name).hasNul = (p.hasNul || name.toList.contains '\x00') := by
  simp [hasNul, child]

theorem child_injective (p : Path) : Function.Injective p.child := by
  intro a b h
  simpa [child] using congrArg names h

/-- A path is no longer than one that goes on from it, or it is the current directory's. -/
theorem size_text_child (p : Path) (name : String) :
    p.text.utf8ByteSize ≤ max 1 (p.child name).text.utf8ByteSize := by
  have hc : (p.child name).text = p.anchor.text ++ "/".intercalate (p.names ++ [name]) := by
    simp [text, child]
  rw [hc]
  have hle : ("/".intercalate p.names).utf8ByteSize ≤ ("/".intercalate (p.names ++ [name])).utf8ByteSize := by
    by_cases hn : p.names = []
    · simp [hn]
    · rw [String.intercalate_append_of_ne_nil hn (by simp), String.utf8ByteSize_append, String.utf8ByteSize_append]
      omega
  by_cases hcurrent : p.anchor = .here ∧ p.names = []
  · have htext : p.text = "." := if_pos hcurrent
    have hdot : ".".utf8ByteSize = 1 := by decide
    rw [htext, hdot]
    exact Nat.le_max_left _ _
  · have htext : p.text = p.anchor.text ++ "/".intercalate p.names := if_neg hcurrent
    rw [htext, String.utf8ByteSize_append, String.utf8ByteSize_append]
    omega

end Path

namespace FileTree

variable {t : FileTree} {p : Path}

/-! ## Directories on a way -/

theorem walk_append (t : FileTree) (way : Way) (a b : List String) :
    t.walk way (a ++ b) = (t.walk way a).bind fun further => t.walk further b := by
  induction a generalizing way with
  | nil => rfl
  | cons name names ih =>
    rw [List.cons_append, walk, walk]
    cases t.step way name with
    | error f => rfl
    | ok further => exact ih further

theorem isDirectory_of_mem_list {name : String} (h : name ∈ t.list p) : t.isDirectory p := by
  unfold list at h
  unfold isDirectory
  cases hf : t.find p with
  | error f => simp [hf] at h
  | ok e =>
    cases e with
    | file bytes => simp [hf, Entry.inside] at h
    | directory inside => simp [Entry.isDirectory]

theorem isDirectory_of_step {way further : Way} {name : String} (h : t.step way name = .ok further) :
    (way.entry t.root).isDirectory := by
  unfold step at h
  split at h
  · cases h
  · next he =>
    rw [he]
    rfl

/-- What has anything below it is a directory. -/
theorem isDirectory_of_child {name : String} (h : t.isDirectory (p.child name)) : t.isDirectory p := by
  unfold isDirectory find follow at h
  have hs := p.size_text_child name
  split at h
  · next e he =>
    split at he
    · cases he
    · next hl =>
      have hp : ¬ textLimit < p.text.utf8ByteSize := by
        simp only [textLimit] at hl ⊢
        omega
      have hw : t.start (p.child name) ++ (p.child name).names = (t.start p ++ p.names) ++ [name] := by
        rw [List.append_assoc]
        rfl
      rw [hw, walk_append] at he
      unfold isDirectory find follow
      rw [if_neg hp]
      cases hwalk : t.walk [] (t.start p ++ p.names) with
      | error f => simp [hwalk, Except.bind, Except.map] at he
      | ok way =>
        simp only [hwalk, Except.bind, walk] at he
        cases hstep : t.step way name with
        | error f => simp [hstep, Except.map] at he
        | ok further => exact isDirectory_of_step hstep
  · cases h

theorem isThere_of_isDirectory (h : t.isDirectory p) (hn : p.hasNul = false) : t.isThere p := by
  unfold isDirectory at h
  unfold isThere
  cases hf : t.find p with
  | error f => simp [hf] at h
  | ok e => simp [hn, Except.toOption]

end FileTree

namespace Glob

/-- From a path on, the names of a pattern meet another path: a name with signs stands for an entry
that is listed there and that it meets, any other name for itself. -/
def Meets (t : FileTree) (p : Path) : List String → Path → Prop
  | [], q => q = p
  | name :: names, q =>
    ∃ n, (if isPattern name then n ∈ t.list p ∧ meets name n else n = name) ∧ Meets t (p.child n) names q

variable {t : FileTree} {p q : Path} {names : List String}

theorem meets_of_plain (h : ∀ name ∈ names, isPattern name = false) (later : List String) :
    Meets t p (names ++ later) q ↔ Meets t { p with names := p.names ++ names } later q := by
  induction names generalizing p with
  | nil => simp
  | cons name names ih =>
    obtain ⟨hn, hnames⟩ := List.forall_mem_cons.1 h
    simp [Meets, hn, ih hnames, Path.child]

/-- On the way to a directory there are only directories. -/
theorem isDirectory_of_meets (h : Meets t p names q) (hq : t.isDirectory q) : t.isDirectory p := by
  induction names generalizing p with
  | nil => exact h ▸ hq
  | cons name names ih =>
    obtain ⟨n, -, h⟩ := h
    exact FileTree.isDirectory_of_child (ih h)

theorem hasNul_of_meets (h : Meets t p names q) (hq : q.hasNul = false) : p.hasNul = false := by
  induction names generalizing p with
  | nil => exact h ▸ hq
  | cons name names ih =>
    obtain ⟨n, -, h⟩ := h
    have hc := ih h
    rw [Path.hasNul_child, Bool.or_eq_false_iff] at hc
    exact hc.1

theorem mem_meeting {followed : Bool} {name : String} :
    q ∈ meeting t followed name p ↔
      ∃ n, (n ∈ t.list p ∧ meets name n) ∧ (followed → t.isDirectory (p.child n)) ∧ q = p.child n := by
  unfold meeting meets
  simp only [List.mem_map, List.mem_filter, Bool.and_eq_true, Bool.or_eq_true, Bool.not_eq_true']
  constructor
  · rintro ⟨n, ⟨hl, hm, hf⟩, rfl⟩
    refine ⟨n, ⟨hl, hm⟩, fun ht => ?_, rfl⟩
    rcases hf with hf | hf
    · simp [hf] at ht
    · exact hf
  · rintro ⟨n, ⟨hl, hm⟩, hf, rfl⟩
    refine ⟨n, ⟨hl, hm, ?_⟩, rfl⟩
    cases followed with
    | false => exact .inl rfl
    | true => exact .inr (hf rfl)

/-- Paths from which a directory is met, and no others, are kept on the way to it. -/
theorem mem_extend {name : String} {found further : List Path} {d : Path} (h : extend t true name found = .ok further)
    (hd : t.isDirectory d) (hn : d.hasNul = false) :
    (∃ q ∈ further, Meets t q names d) ↔ ∃ p ∈ found, Meets t p (name :: names) d := by
  unfold extend at h
  split at h
  · next hp =>
    split at h
    · cases h
    · cases h
      simp only [List.mem_flatMap, mem_meeting, Meets, if_pos hp]
      constructor
      · rintro ⟨q, ⟨p, hpm, n, hl, -, rfl⟩, hm⟩
        exact ⟨p, hpm, n, hl, hm⟩
      · rintro ⟨p, hpm, n, hl, hm⟩
        exact ⟨p.child n, ⟨p, hpm, n, hl, fun _ => isDirectory_of_meets hm hd, rfl⟩, hm⟩
  · next hp =>
    cases h
    simp only [List.mem_filter, List.mem_map, Meets, if_neg hp]
    constructor
    · rintro ⟨q, ⟨⟨p, hpm, rfl⟩, -⟩, hm⟩
      exact ⟨p, hpm, name, rfl, hm⟩
    · rintro ⟨p, hpm, n, rfl, hm⟩
      have hthere := FileTree.isThere_of_isDirectory (isDirectory_of_meets hm hd) (hasNul_of_meets hm hn)
      exact ⟨p.child n, ⟨⟨p, hpm, rfl⟩, hthere⟩, hm⟩

/-- A pattern whose last name has signs finds the entries that this name meets, in all directories
that the names before it meet. -/
theorem mem_expandFrom {last : String} (hl : isPattern last) {found paths : List Path}
    (h : expandFrom t found (names ++ [last]) = .ok paths) (q : Path) :
    q ∈ paths ↔ ∃ p ∈ found, ∃ d n, Meets t p names d ∧ d.hasNul = false ∧ n ∈ t.list d ∧ meets last n ∧
      q = d.child n := by
  induction names generalizing found with
  | nil =>
    simp only [List.nil_append, expandFrom, extend, if_pos hl] at h
    split at h
    · cases h
    · next hf =>
      split at hf
      · cases hf
      · next hnul =>
        cases hf
        cases h
        simp only [List.any_eq_true, not_exists, not_and, Bool.not_eq_true] at hnul
        simp only [List.mem_flatMap, mem_meeting, Meets]
        constructor
        · rintro ⟨p, hp, n, ⟨hn, hm⟩, -, rfl⟩
          exact ⟨p, hp, p, n, rfl, hnul p hp, hn, hm, rfl⟩
        · rintro ⟨p, hp, d, n, rfl, -, hn, hm, rfl⟩
          exact ⟨d, hp, n, ⟨hn, hm⟩, by simp, rfl⟩
  | cons name names ih =>
    rw [List.cons_append, expandFrom] at h
    have hfollowed : (!(names ++ [last]).isEmpty) = true := by simp
    rw [hfollowed] at h
    split at h
    · cases h
    · next further hf =>
      rw [ih h]
      constructor
      · rintro ⟨p, hp, d, n, hm, hn, hd, hrest⟩
        obtain ⟨p', hp', hm'⟩ := (mem_extend hf (FileTree.isDirectory_of_mem_list hd) hn).1 ⟨p, hp, hm⟩
        exact ⟨p', hp', d, n, hm', hn, hd, hrest⟩
      · rintro ⟨p, hp, d, n, hm, hn, hd, hrest⟩
        obtain ⟨p', hp', hm'⟩ := (mem_extend hf (FileTree.isDirectory_of_mem_list hd) hn).2 ⟨p, hp, hm⟩
        exact ⟨p', hp', d, n, hm', hn, hd, hrest⟩

/-- Nothing but a NUL stops the way of a pattern. -/
theorem expandFrom_eq_error {found : List Path} {f : Fault} (h : expandFrom t found names = .error f) :
    f = .nulInPath := by
  induction names generalizing found with
  | nil => cases h
  | cons name names ih =>
    rw [expandFrom] at h
    split at h
    · next hf =>
      cases h
      unfold extend at hf
      split at hf
      · split at hf
        · cases hf
          rfl
        · cases hf
      · cases hf
    · exact ih h

end Glob

end NodeMemory
