import Mathlib.Data.Nat.Digits.Defs
import NodeMemory.Json
import NodeMemory.Proofs.JsonGrammar
/-!
# Finite values are JSON numbers

Every layout of a finite value is a number of the grammar, whatever the place that writes it. The
one thing to see is that the digits of the shortest decimal do not begin with a zero, for then
they can stand before the point.
-/

namespace NodeMemory

open JsonText

/-! ## Digits -/

namespace JsonText

theorem isDigits_repr (n : Nat) : IsDigits (Nat.repr n).toList := by
  rw [Nat.repr_eq_ofList_toDigits, String.toList_ofList]
  exact ⟨Nat.toDigits_ne_nil, fun c hc => Nat.isDigit_of_mem_toDigits (by decide) (by decide) hc⟩

theorem head?_toDigits {n : Nat} (h : 0 < n) : (Nat.toDigits 10 n).head? ≠ some '0' := by
  induction n using Nat.strongRecOn with
  | ind n ih =>
    by_cases hn : n < 10
    · rw [Nat.toDigits_of_lt_base hn]
      simpa [Nat.digitChar_eq_zero] using Nat.ne_of_gt h
    · obtain ⟨c, cs, hc⟩ := List.exists_cons_of_ne_nil (Nat.toDigits_ne_nil (n := n / 10) (b := 10))
      have ih := ih (n / 10) (by omega) (by omega)
      rw [hc] at ih
      rw [Nat.toDigits_of_base_le (by decide) (by omega), hc]
      exact ih

/-- The digits of a positive number can stand before a point. -/
theorem head?_repr {n : Nat} (h : 0 < n) : (Nat.repr n).toList.head? ≠ some '0' := by
  rw [Nat.repr_eq_ofList_toDigits, String.toList_ofList]
  exact head?_toDigits h

theorem isWhole_repr (n : Nat) : IsWhole (Nat.repr n).toList := by
  rcases Nat.eq_zero_or_pos n with rfl | hn
  · exact .inl (by decide)
  · exact .inr ⟨isDigits_repr n, head?_repr hn⟩

theorem IsDigits.append_all {text more : List Char} (h : IsDigits text) (hm : ∀ c ∈ more, c.isDigit) :
    IsDigits (text ++ more) := by
  refine ⟨by simp [h.1], fun c hc => ?_⟩
  rcases List.mem_append.1 hc with hc | hc
  · exact h.2 c hc
  · exact hm c hc

theorem isDigit_of_mem_zeros {n : Nat} {c : Char} (h : c ∈ List.replicate n '0') : c.isDigit := by
  rw [List.eq_of_mem_replicate h]
  decide

/-- A number that is an integer. -/
theorem isNumber_of_isWhole {minus whole : List Char} (hm : minus ∈ [[], ['-']]) (hw : IsWhole whole) :
    IsNumber (minus ++ whole) :=
  ⟨minus, whole, [], [], hm, hw, .inl rfl, .inl rfl, by simp⟩

theorem isNumber_toString (n : Int) : IsNumber (toString n).toList := by
  rw [Int.toString_eq_repr, Int.repr_eq_if]
  split
  · exact isNumber_of_isWhole (show [] ∈ [[], ['-']] by simp) (isWhole_repr _)
  · rw [String.toList_append]
    exact isNumber_of_isWhole (show ['-'] ∈ [[], ['-']] by simp) (isWhole_repr _)

end JsonText

/-! ## Layouts -/

namespace Numeral

variable {digits : List Char}

theorem positional_eq (hd : IsDigits digits) (h0 : digits.head? ≠ some '0') (whole : Int) :
    ∃ before after, IsWhole before ∧ IsDigits after ∧ positional digits whole = before ++ '.' :: after := by
  unfold positional
  by_cases hw : whole ≤ 0
  · rw [if_pos hw]
    refine ⟨['0'], List.replicate (-whole).toNat '0' ++ digits, .inl rfl, ⟨by simp [hd.1], fun c hc => ?_⟩, rfl⟩
    rcases List.mem_append.1 hc with hc | hc
    · exact isDigit_of_mem_zeros hc
    · exact hd.2 c hc
  · rw [if_neg hw]
    obtain ⟨n, hn⟩ : ∃ n, whole.toNat = n + 1 := ⟨whole.toNat - 1, by omega⟩
    obtain ⟨c, cs, rfl⟩ := List.exists_cons_of_ne_nil hd.1
    have hall := fun c hc => hd.2 c (List.mem_of_mem_take (i := whole.toNat) hc)
    refine ⟨(c :: cs).take whole.toNat ++ List.replicate (whole.toNat - (c :: cs).length) '0', _, .inr ⟨?_, ?_⟩, ?_,
      rfl⟩
    · exact IsDigits.append_all ⟨by simp [hn], hall⟩ fun _ hc => isDigit_of_mem_zeros hc
    · simpa [hn] using h0
    · split
      · exact ⟨by simp, by simp⟩
      · rename_i hne
        exact ⟨by simpa using hne, fun c hc => hd.2 c (List.mem_of_mem_drop hc)⟩

theorem isExponent_exponentText (e : Int) : IsExponent ('e' :: exponentText e) := by
  have hd := isDigits_repr e.natAbs
  unfold exponentText
  generalize (Nat.repr e.natAbs).toList = digits at hd ⊢
  refine .inr ⟨'e', [if e < 0 then '-' else '+'], if digits.length < 2 then '0' :: digits else digits, by simp,
    by split <;> simp, ?_, rfl⟩
  split
  · exact (show IsDigits ['0'] from ⟨by simp, by simp⟩).append_all hd.2
  · exact hd

theorem scientific_eq (hd : IsDigits digits) (h0 : digits.head? ≠ some '0') (e : Int) :
    ∃ before after, IsWhole before ∧ IsFraction after ∧
      scientific digits e = before ++ (after ++ 'e' :: exponentText e) := by
  obtain ⟨c, cs, rfl⟩ := List.exists_cons_of_ne_nil hd.1
  have hc : IsWhole [c] := .inr ⟨⟨by simp, by simpa using hd.2 c (by simp)⟩, by simpa using h0⟩
  refine ⟨[c], if cs = [] then [] else '.' :: cs, hc, ?_, by cases cs <;> simp [scientific]⟩
  split
  · exact .inl rfl
  · rename_i hcs
    exact .inr ⟨cs, ⟨hcs, fun c h => hd.2 c (List.mem_cons_of_mem _ h)⟩, rfl⟩

/-- A positive decimal, with or without a sign in front, is a number. -/
theorem isNumber_layout {minus : List Char} (hm : minus ∈ [[], ['-']]) (scientificFrom : Int) {d : Decimal}
    (h : 0 < d.digits) : IsNumber (minus ++ layout scientificFrom d) := by
  have hd := isDigits_repr d.digits
  have h0 := head?_repr h
  unfold layout
  simp only
  split
  · obtain ⟨before, after, hb, ha, he⟩ := positional_eq hd h0 ((Nat.repr d.digits).toList.length + d.exponent)
    rw [he]
    exact ⟨minus, before, '.' :: after, [], hm, hb, .inr ⟨after, ha, rfl⟩, .inl rfl, by simp⟩
  · obtain ⟨before, after, hb, ha, he⟩ :=
      scientific_eq hd h0 ((Nat.repr d.digits).toList.length + d.exponent - 1)
    rw [he]
    exact ⟨minus, before, after, _, hm, hb, ha, isExponent_exponentText _, rfl⟩

end Numeral

/-! ## The shortest decimal is positive -/

namespace Decimal

theorem digits_stripZeros {fuel : Nat} {d : Decimal} (h : 0 < d.digits) : 0 < (stripZeros fuel d).digits := by
  induction fuel generalizing d with
  | zero => exact h
  | succ fuel ih =>
    unfold stripZeros
    split
    · exact ih (show 0 < d.digits / 10 by omega)
    · exact h

theorem units_pos {rank : Nat} (h : rank ≠ 0) : 0 < Binary64.units rank := by
  unfold Binary64.units
  split
  · exact Nat.pos_of_ne_zero h
  · exact Nat.mul_pos (Nat.add_pos_left (Nat.pow_pos (by decide)) _) (Nat.pow_pos (by decide))

theorem tenths_pos {rank : Nat} (h : rank ≠ 0) : 0 < tenths rank := by
  unfold tenths
  generalize 1074 = n
  exact Nat.mul_pos (units_pos h) (Nat.pow_pos (by decide))

/-- No digits at all are read as zero. -/
theorem ReadsAs.digits_pos {d : Decimal} {rank : Fin rankCount} (h : d.ReadsAs rank) (hr : rank.val ≠ 0) :
    0 < d.digits := by
  by_contra h0
  unfold ReadsAs Binary64.ofDecimal at h
  rw [if_pos (by omega)] at h
  simp only [Binary64.ofRank, rank.isLt, show 0 < rankCount by decide, dif_pos] at h
  exact hr (congrArg Fin.val (Binary64.finite.inj h).2).symm

theorem readsAs_of_onGrid? {rank value drop : Nat} {d : Decimal} (h : onGrid? rank value drop = some d) :
    d.ReadsAs rank := by
  unfold onGrid? at h
  simp only at h
  split at h
  · rename_i hb
    split at h
    · rename_i ha
      split at h
      · cases h
        exact hb
      · split at h
        · cases h
          exact ha
        · split at h <;> cases h
          · exact hb
          · exact ha
    · cases h
      exact hb
  · split at h
    · rename_i ha
      cases h
      exact ha
    · cases h

theorem digits_shortest {rank : Fin rankCount} (hr : rank.val ≠ 0) : 0 < (shortest rank).digits := by
  unfold shortest
  apply digits_stripZeros
  generalize hf : (List.range 17).findSome? _ = found
  cases found with
  | none => exact tenths_pos hr
  | some d =>
    obtain ⟨n, -, hn⟩ := List.exists_of_findSome?_eq_some hf
    exact (readsAs_of_onGrid? hn).digits_pos hr

end Decimal

/-! ## Values -/

/-- How the sign of a number is written. -/
def signText (negative : Bool) : List Char := if negative then ['-'] else []

theorem Numeral.toList_render (style : Numeral) (negative : Bool) (rank : Fin rankCount) :
    (style.render (.finite negative rank)).toList = signText negative ++
      if rank.val = 0 then ['0', '.', '0']
      else layout (if negative then negativeScientificFrom else style.scientificFrom) (Decimal.shortest rank) := by
  cases negative <;> simp [render, signText]

/-- Every finite value is written as a number. -/
theorem Numeral.isNumber_render (style : Numeral) (negative : Bool) (rank : Fin rankCount) :
    IsNumber (style.render (.finite negative rank)).toList := by
  have hm : signText negative ∈ [[], ['-']] := by cases negative <;> simp [signText]
  rw [Numeral.toList_render]
  by_cases h0 : rank.val = 0
  · rw [if_pos h0]
    exact ⟨_, ['0'], ['.', '0'], [], hm, .inl rfl, .inr ⟨['0'], ⟨by simp, by simp⟩, rfl⟩, .inl rfl, rfl⟩
  · rw [if_neg h0]
    exact isNumber_layout hm _ (Decimal.digits_shortest h0)

end NodeMemory
