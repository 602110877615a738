import Mathlib.Data.List.Forall2
import NodeMemory.Key
import NodeMemory.Proofs.Fields
/-!
# How a label is rewritten

Rewriting goes through a label from left to right, and a qualifier takes as much as it can. So a
line has one qualifier at most: it begins at the first opening parenthesis and ends at the last
closing one, if that stands behind it (`qualified_rewriteFrom`). Each line of a label is rewritten on
its own (`rewriteFrom_append_newline`). Together this is the record name, line by line, and tells when
it is free of parentheses (`canonical_line_by_line`).
-/

namespace NodeMemory.Key

/-! ## What becomes of a line -/

/-- A line and what becomes of it. Between the first opening parenthesis and the last closing one
stands the qualifier. A line stays as it is if nothing closes behind what opens. -/
inductive Qualified : List Char → List Char → Prop
  | group {before inside after : List Char} : '(' ∉ before → ')' ∉ after →
      Qualified (before ++ '(' :: (inside ++ ')' :: after)) (before ++ '_' :: (inside ++ after))
  | plain {line : List Char} : (∀ before rest, line = before ++ '(' :: rest → ')' ∉ rest) → Qualified line line

theorem Qualified.cons {c : Char} {line name : List Char} (hc : c ≠ '(') (h : Qualified line name) :
    Qualified (c :: line) (c :: name) := by
  cases h with
  | @group before inside after hb ha =>
    have hb : '(' ∉ c :: before := by simp [hb, hc.symm]
    exact .group hb ha
  | plain h =>
    refine .plain fun before rest he => ?_
    rcases before with _ | ⟨d, before⟩
    · exact absurd (List.cons.inj he).1 hc
    · exact h before rest (List.cons.inj he).2

/-- Only one thing can become of a line. -/
theorem rightUnique_qualified : Relator.RightUnique Qualified := by
  intro line name name' h h'
  generalize hl : line = line' at h'
  cases h with
  | @group before inside after hb ha =>
    cases h' with
    | group hb' ha' =>
      obtain ⟨rfl, hrest⟩ := Text.first_unique hl hb hb'
      obtain ⟨rfl, rfl⟩ := Text.last_unique hrest ha ha'
      rfl
    | plain h' => exact absurd (by simp) (h' before (inside ++ ')' :: after) hl.symm)
  | plain h =>
    cases h' with
    | @group before inside after hb' ha' => exact absurd (by simp) (h before (inside ++ ')' :: after) hl)
    | plain h' => exact hl

/-! ## Qualifiers -/

theorem qualifierLength?_lt {cs : List Char} {n : Nat} (h : qualifierLength? cs = some n) : n < cs.length := by
  induction cs generalizing n with
  | nil => cases h
  | cons c cs ih =>
    rw [qualifierLength?] at h
    split at h
    · next m hm =>
      cases h
      split at hm
      · cases hm
      · exact Nat.succ_lt_succ (ih hm)
    · split at h
      · cases h
        simp
      · cases h

/-- A qualifier does not go beyond its line. -/
theorem qualifierLength?_append_newline {line : List Char} (hl : '\n' ∉ line) (rest : List Char) :
    qualifierLength? (line ++ '\n' :: rest) = qualifierLength? line := by
  induction line with
  | nil => rfl
  | cons c line ih =>
    rw [List.cons_append, qualifierLength?, ih fun hm => hl (by simp [hm])]
    rfl

theorem qualifierLength?_of_notMem {cs : List Char} (h : ')' ∉ cs) : qualifierLength? cs = none := by
  induction cs with
  | nil => rfl
  | cons c cs ih =>
    obtain ⟨hc, hcs⟩ := not_or.1 (List.mem_cons.not.1 h)
    have hc : ¬ c = ')' := fun he => hc he.symm
    simp [qualifierLength?, ih hcs, hc]

/-- In a line, the last closing parenthesis ends the qualifier. -/
theorem qualifierLength?_append_closing {inside after : List Char} (hi : '\n' ∉ inside) (ha : ')' ∉ after) :
    qualifierLength? (inside ++ ')' :: after) = some inside.length := by
  induction inside with
  | nil => simp [qualifierLength?, qualifierLength?_of_notMem ha]
  | cons c inside ih =>
    obtain ⟨hc, hi⟩ := not_or.1 (List.mem_cons.not.1 hi)
    have hc : ¬ c = '\n' := fun he => hc he.symm
    simp [qualifierLength?, hc, ih hi]

theorem exists_last_closing {cs : List Char} (h : ')' ∈ cs) : ∃ inside after, cs = inside ++ ')' :: after ∧ ')' ∉ after := by
  obtain ⟨after, inside, he, ha⟩ := List.eq_append_cons_of_mem (List.mem_reverse.2 h)
  refine ⟨inside.reverse, after.reverse, ?_, by simpa using ha⟩
  rw [← List.reverse_reverse cs, he]
  simp

/-! ## Rewriting -/

theorem rewriteFrom_inside (inside : List Char) (c : Char) (rest : List Char) :
    rewriteFrom (some inside.length) (inside ++ c :: rest) = inside ++ rewriteFrom none rest := by
  induction inside with
  | nil => rfl
  | cons d inside ih => rw [List.length_cons, List.cons_append, rewriteFrom, ih, List.cons_append]

/-- Where nothing closes, nothing changes. -/
theorem rewriteFrom_of_notMem {cs : List Char} (h : ')' ∉ cs) : rewriteFrom none cs = cs := by
  induction cs with
  | nil => rfl
  | cons c cs ih =>
    have hcs : ')' ∉ cs := fun hm => h (by simp [hm])
    simp [rewriteFrom, qualifierLength?_of_notMem hcs, ih hcs]

theorem rewriteFrom_cons {c : Char} (hc : c ≠ '(') (cs : List Char) : rewriteFrom none (c :: cs) = c :: rewriteFrom none cs := by
  simp [rewriteFrom, hc]

theorem qualified_rewriteFrom {line : List Char} (hl : '\n' ∉ line) : Qualified line (rewriteFrom none line) := by
  induction line with
  | nil => exact .plain fun before rest h => by simp at h
  | cons c line ih =>
    have hline : '\n' ∉ line := fun hm => hl (by simp [hm])
    by_cases hc : c = '('
    · subst hc
      by_cases hclose : ')' ∈ line
      · -- This is the first parenthesis that opens, and behind the last that closes nothing changes.
        obtain ⟨inside, after, rfl, ha⟩ := exists_last_closing hclose
        have hi : '\n' ∉ inside := fun hm => hline (by simp [hm])
        rw [rewriteFrom, if_pos rfl, qualifierLength?_append_closing hi ha]
        dsimp only
        rw [rewriteFrom_inside, rewriteFrom_of_notMem ha]
        have hnone : '(' ∉ ([] : List Char) := by simp
        exact .group hnone ha
      · rw [rewriteFrom_of_notMem (by simpa using hclose)]
        refine .plain fun before rest he hm => hclose ?_
        rcases before with _ | ⟨d, before⟩
        · exact (List.cons.inj he).2 ▸ hm
        · rw [(List.cons.inj he).2]
          simp [hm]
    · rw [rewriteFrom_cons hc]
      exact (ih hline).cons hc

/-- What stands in one line does not depend on the next, if a qualifier that is being kept ends in it. -/
theorem rewriteFrom_append_newline {line : List Char} (hl : '\n' ∉ line) (rest : List Char) {state : Option Nat}
    (hs : ∀ left ∈ state, left < line.length) :
    rewriteFrom state (line ++ '\n' :: rest) = rewriteFrom state line ++ '\n' :: rewriteFrom none rest := by
  induction line generalizing state with
  | nil =>
    cases state with
    | none => rfl
    | some left => exact absurd (hs left rfl) (by simp)
  | cons c line ih =>
    have hline : '\n' ∉ line := fun hm => hl (by simp [hm])
    have hnever : ∀ left ∈ (none : Option Nat), left < line.length := nofun
    have hnone := ih hline hnever
    rcases state with _ | _ | left
    · rw [List.cons_append, rewriteFrom, rewriteFrom, qualifierLength?_append_newline hline]
      split
      · next n hn =>
        have hn : qualifierLength? line = some n := by
          split at hn
          · exact hn
          · cases hn
        have hn' : ∀ left ∈ some n, left < line.length := by
          rintro _ ⟨⟩
          exact qualifierLength?_lt hn
        rw [ih hline hn', List.cons_append]
      · rw [hnone, List.cons_append]
    · rw [List.cons_append, rewriteFrom, rewriteFrom, hnone]
    · have hleft : ∀ n ∈ some left, n < line.length := by
        rintro _ ⟨⟩
        exact Nat.lt_of_succ_lt_succ (hs (left + 1) rfl)
      rw [List.cons_append, rewriteFrom, rewriteFrom, ih hline hleft, List.cons_append]

/-- Rewriting goes line by line. -/
theorem exists_rewriteFrom_eq (cs : List Char) :
    ∃ lines, List.Forall₂ Qualified (cs.splitOn '\n') lines ∧ rewriteFrom none cs = ['\n'].intercalate lines := by
  induction hn : cs.length using Nat.strongRecOn generalizing cs with
  | ind n ih =>
    by_cases hcs : '\n' ∈ cs
    · obtain ⟨line, rest, rfl, hl⟩ := List.eq_append_cons_of_mem hcs
      obtain ⟨lines, hlines, hrest⟩ := ih rest.length (by simp [← hn]; omega) rest rfl
      have hne : lines ≠ [] := by
        rintro rfl
        exact List.splitOn_ne_nil _ _ (List.forall₂_nil_right_iff.1 hlines)
      rw [List.splitOn_append_cons_self_of_not_mem hl]
      refine ⟨_, .cons (qualified_rewriteFrom hl) hlines, ?_⟩
      rw [rewriteFrom_append_newline hl rest (by simp), hrest, List.intercalate_cons_of_ne_nil hne]
      simp
    · rw [List.splitOn_eq_singleton hcs]
      exact ⟨_, .cons (qualified_rewriteFrom hcs) .nil, by simp⟩

/-! ## Parentheses -/

def NoParentheses (text : List Char) : Prop := '(' ∉ text ∧ ')' ∉ text

/-- One parenthesis opens and one closes, in this order. -/
structure OneGroup (text : List Char) : Prop where
  opening : text.count '(' = 1
  closing : text.count ')' = 1
  order : ∃ before rest, text = before ++ '(' :: rest ∧ ')' ∈ rest

theorem Qualified.noParentheses_iff {line name : List Char} (h : Qualified line name) :
    NoParentheses name ↔ NoParentheses line ∨ OneGroup line := by
  cases h with
  | @group before inside after hb ha =>
    have hline : ¬ NoParentheses (before ++ '(' :: (inside ++ ')' :: after)) := fun hn => hn.1 (by simp)
    rw [or_iff_right hline, NoParentheses, ← List.count_eq_zero, ← List.count_eq_zero]
    -- The name has one parenthesis less of either kind.
    constructor
    · rintro ⟨ho, hc⟩
      refine ⟨?_, ?_, before, _, rfl, by simp⟩
      · simp at ho ⊢
        omega
      · simp at hc ⊢
        omega
    · rintro ⟨ho, hc, -⟩
      simp at ho hc ⊢
      omega
  | plain h =>
    refine ⟨.inl, fun hor => hor.elim id fun hone => ?_⟩
    obtain ⟨before, rest, he, hm⟩ := hone.order
    exact absurd hm (h before rest he)

/-! ## Labels -/

/-- **The record name of a label.** A colon at the end goes, and each line is rewritten on its own:
the name is this and no other. The name of a label of one line is free of parentheses exactly if the
label is, or has one group and no other parenthesis. -/
theorem canonical_line_by_line (raw : String) :
    (∀ name : String, canonical raw = name ↔ ∃ lines,
      List.Forall₂ Qualified ((dropColon raw.toList).splitOn '\n') lines ∧
        name.toList = ['\n'].intercalate lines) ∧
    ('\n' ∉ dropColon raw.toList → (NoParentheses (canonical raw).toList ↔
      NoParentheses (dropColon raw.toList) ∨ OneGroup (dropColon raw.toList))) := by
  obtain ⟨lines, hlines, hname⟩ := exists_rewriteFrom_eq (dropColon raw.toList)
  have hcanonical : (canonical raw).toList = ['\n'].intercalate lines := by
    rw [canonical, String.toList_ofList, hname]
  refine ⟨fun name => ⟨?_, ?_⟩, fun hl => ?_⟩
  · rintro rfl
    exact ⟨lines, hlines, hcanonical⟩
  · rintro ⟨lines', hlines', hname'⟩
    obtain rfl : lines = lines' := rightUnique_qualified.forall₂ hlines hlines'
    exact String.toList_inj.1 (hcanonical.trans hname'.symm)
  · rw [canonical, String.toList_ofList]
    exact (qualified_rewriteFrom hl).noParentheses_iff

/-- A label with one group. -/
theorem canonical_line_by_line_active :
    '\n' ∉ dropColon "Active(anon):".toList ∧ NoParentheses (canonical "Active(anon):").toList := by
  have hl : '\n' ∉ dropColon "Active(anon):".toList := by decide
  have hone : OneGroup (dropColon "Active(anon):".toList) :=
    ⟨by decide, by decide, "Active".toList, "anon)".toList, rfl, by decide⟩
  exact ⟨hl, ((canonical_line_by_line "Active(anon):").2 hl).2 (.inr hone)⟩

-- The parentheses of two groups close far apart, and a line feed ends the search.
example : canonical "a(b)c(d)e(\n(f::" = "a_b)c(de(\n(f:" := by decide

end NodeMemory.Key
