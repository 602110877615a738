import NodeMemory.Proofs.Magnitudes
/-!
# Rounding

The rank of a quotient is what its number of units is rounded to (`roundsTo_rankOfQuotient`): the
greatest power of two that is at most the quotient tells the exponent. Hence a quotient that is a
magnitude has the rank of that magnitude, scaling by a power of two moves a rounding and changes
nothing else, and the rank is finite just below the bound of overflow
(`rankOfQuotient_lt_rankCount_iff`).
-/

namespace NodeMemory.Binary64

/-! ## The exponent of a quotient -/

theorem zpow_eq_div (b : ℚ) (e : ℤ) : b ^ e = b ^ e.toNat / b ^ (-e).toNat := by
  rcases Int.eq_nat_or_neg e with ⟨n, rfl | rfl⟩
  · simp
  · simp

/-- The exponent is that of the greatest power of two that is at most the quotient. -/
theorem log2Quotient_spec {num den : ℕ} (hnum : num ≠ 0) (hden : den ≠ 0) :
    (2 : ℚ) ^ log2Quotient num den ≤ num / den ∧ (num : ℚ) / den < 2 ^ (log2Quotient num den + 1) := by
  have htwo : (2 : ℚ) ≠ 0 := by norm_num
  have hpos : (0 : ℚ) < den := by exact_mod_cast Nat.pos_of_ne_zero hden
  have hnum1 : (2 : ℚ) ^ num.log2 ≤ num := by exact_mod_cast Nat.log2_self_le hnum
  have hnum2 : (num : ℚ) < 2 ^ (num.log2 + 1) := by exact_mod_cast Nat.lt_log2_self (n := num)
  have hden1 : (2 : ℚ) ^ den.log2 ≤ den := by exact_mod_cast Nat.log2_self_le hden
  have hden2 : (den : ℚ) < 2 ^ (den.log2 + 1) := by exact_mod_cast Nat.lt_log2_self (n := den)
  -- The guess is at most one too high.
  have hlow : (2 : ℚ) ^ ((num.log2 : ℤ) - den.log2 - 1) ≤ num / den := by
    rw [show (num.log2 : ℤ) - den.log2 - 1 = (num.log2 : ℤ) - (den.log2 + 1 : ℕ) by push_cast; ring,
      zpow_sub₀ htwo, zpow_natCast, zpow_natCast]
    exact div_le_div₀ (by positivity) hnum1 hpos hden2.le
  have hhigh : (num : ℚ) / den < 2 ^ ((num.log2 : ℤ) - den.log2 + 1) := by
    rw [show (num.log2 : ℤ) - den.log2 + 1 = (num.log2 + 1 : ℕ) - (den.log2 : ℤ) by push_cast; ring,
      zpow_sub₀ htwo, zpow_natCast, zpow_natCast]
    exact div_lt_div₀ hnum2 hden1 (by positivity) (by positivity)
  rw [log2Quotient]
  generalize (num.log2 : ℤ) - den.log2 = guess at *
  have htest : den * Nat.pow 2 guess.toNat ≤ num * Nat.pow 2 (-guess).toNat ↔ (2 : ℚ) ^ guess ≤ num / den := by
    rw [zpow_eq_div, div_le_div_iff₀ (by positivity) hpos, Nat.pow_eq, Nat.pow_eq, mul_comm den, ← @Nat.cast_le ℚ]
    push_cast
    rfl
  simp only [htest]
  split
  · next h => exact ⟨h, hhigh⟩
  · next h => exact ⟨hlow, by simpa using h⟩

/-- A quotient counted in steps of 2^`last`, without a fraction in it. -/
theorem cast_quotient_steps (num den : ℕ) (last : ℤ) :
    ((num * Nat.pow 2 (-last).toNat : ℕ) : ℚ) / (den * Nat.pow 2 last.toNat : ℕ) = num / den / 2 ^ last := by
  rw [zpow_eq_div, Nat.pow_eq, Nat.pow_eq, div_div_div_eq]
  push_cast
  rfl

/-! ## The rank of a quotient -/

theorem cast_one : (one : ℚ) = 2 ^ 1074 := by
  unfold one
  generalize 1074 = n
  rw [Nat.pow_eq, Nat.cast_pow, Nat.cast_ofNat]

theorem cast_fractionCount : (fractionCount : ℚ) = 2 ^ (52 : ℤ) := by
  rw [fractionCount, Nat.pow_eq, Nat.cast_pow, Nat.cast_ofNat, zpow_ofNat]

/-- The rank of a quotient is what its number of units is rounded to. -/
theorem roundsTo_rankOfQuotient (num : ℕ) {den : ℕ} (hden : den ≠ 0) :
    RoundsTo (num / den * one) (rankOfQuotient num den) := by
  by_cases hnum : num = 0
  · have h := roundsTo_units 0
    rw [units, if_pos fractionCount_pos, Nat.cast_zero] at h
    rwa [hnum, rankOfQuotient, if_pos rfl, Nat.cast_zero, zero_div, zero_mul]
  have htwo : (1 : ℚ) ≤ 2 := by norm_num
  obtain ⟨hlow, hhigh⟩ := log2Quotient_spec hnum hden
  simp only [rankOfQuotient, if_neg hnum]
  generalize hlast : max (log2Quotient num den - 52) (-1074) = last
  obtain ⟨e, rfl⟩ : ∃ e : ℕ, last = e - 1074 := ⟨(last + 1074).toNat, by omega⟩
  have hsteps : (num : ℚ) / den * one / 2 ^ e = num / den / 2 ^ ((e : ℤ) - 1074) := by
    rw [cast_one, zpow_sub₀ (by norm_num), zpow_natCast, zpow_ofNat, div_div_eq_mul_div]
  have hstep : (0 : ℚ) < 2 ^ e := by positivity
  have hpower : (0 : ℚ) < 2 ^ ((e : ℤ) - 1074) := by positivity
  rw [show (e : ℤ) - 1074 + 1074 = e by ring, Int.toNat_natCast]
  refine ⟨e, _, ⟨?_, ?_⟩, ?_, rfl⟩
  · rw [← div_lt_iff₀ hstep, hsteps, div_lt_iff₀ hpower, cast_fractionCount, ← zpow_one_add₀ (by norm_num),
      ← zpow_add₀ (by norm_num)]
    exact hhigh.trans_le (zpow_le_zpow_right₀ htwo (by omega))
  · -- Above the least exponent the greatest power of two counts 52 bits of steps.
    by_cases he : e = 0
    · exact .inl he
    · rw [← le_div_iff₀ hstep, hsteps, le_div_iff₀ hpower, cast_fractionCount, ← zpow_add₀ (by norm_num)]
      exact .inr ((zpow_le_zpow_right₀ htwo (by omega)).trans hlow)
  · rw [hsteps, ← cast_quotient_steps]
    exact nearestWhole_roundQuotient _ (Nat.mul_ne_zero hden (Nat.pow_pos (by omega)).ne')

/-- A quotient is rounded to the rank whose magnitude it is. -/
theorem rankOfQuotient_eq_of_units {num den rank : ℕ} (hden : den ≠ 0) (h : num * one = units rank * den) :
    rankOfQuotient num den = rank := by
  have hpos : (den : ℚ) ≠ 0 := by exact_mod_cast hden
  have hunits : (num : ℚ) / den * one = units rank := by
    rw [div_mul_eq_mul_div, div_eq_iff hpos, ← Nat.cast_mul, ← Nat.cast_mul, h]
  have hrank := roundsTo_rankOfQuotient num hden
  rw [hunits] at hrank
  exact hrank.unique (roundsTo_units rank)

/-- A quotient that is no subnormal keeps its rounding under a scaling by a power of two. -/
theorem rankOfQuotient_scale {num den : ℕ} (hden : den ≠ 0) (h : (fractionCount : ℚ) ≤ num / den * one) (k : ℕ) :
    rankOfQuotient (2 ^ k * num) den = rankOfQuotient num den + k * fractionCount := by
  have hscaled := (roundsTo_rankOfQuotient num hden).scale h k
  rw [← mul_assoc, ← mul_div_assoc] at hscaled
  exact (roundsTo_rankOfQuotient (2 ^ k * num) hden).unique (by exact_mod_cast hscaled)

/-! ## Overflow -/

/-- Half way from the greatest finite magnitude to the next power of two. -/
def overflowBound : ℚ := 2 ^ 1024 - 2 ^ 970

theorem overflowBound_mul_one : overflowBound * one = overflowUnits := by
  have hlow : (2 : ℚ) ^ 1024 = 2 ^ 54 * 2 ^ 970 := (pow_add 2 54 970)
  have htop : (2 : ℚ) ^ lastExponent = 2 * 2 ^ 970 * 2 ^ 1074 := by
    rw [← pow_succ', ← pow_add, lastExponent]
  rw [overflowBound, overflowUnits, hlow, htop, cast_one, cast_fractionCount]
  generalize (2 : ℚ) ^ 970 = a
  generalize (2 : ℚ) ^ 1074 = b
  norm_num
  ring

theorem rankOfQuotient_lt_rankCount_iff (num : ℕ) {den : ℕ} (hden : den ≠ 0) :
    rankOfQuotient num den < rankCount ↔ (num : ℚ) / den < overflowBound := by
  have hone : (0 : ℚ) < one := by
    rw [cast_one]
    positivity
  rw [(roundsTo_rankOfQuotient num hden).lt_rankCount_iff, ← overflowBound_mul_one, mul_lt_mul_iff_left₀ hone]

/-- The powers of two up to the last below the bound. -/
theorem two_pow_lt_overflowBound {k : ℕ} (hk : k ≤ 1023) : (2 : ℚ) ^ k < overflowBound := by
  have hpow : (2 : ℚ) ^ k ≤ 2 ^ 1023 := pow_le_pow_right₀ (by norm_num) hk
  have hhalf : (2 : ℚ) ^ 970 < 2 ^ 1023 := pow_lt_pow_right₀ (by norm_num) (by norm_num)
  have hdouble : (2 : ℚ) ^ 1024 = 2 ^ 1023 * 2 := pow_succ 2 1023
  rw [overflowBound, hdouble]
  generalize (2 : ℚ) ^ 1023 = a at *
  generalize (2 : ℚ) ^ 970 = b at *
  linarith

/-- A whole number below the bound is rounded to a finite value. -/
theorem ofInt?_natCast {n : ℕ} (h : (n : ℚ) < overflowBound) : ofInt? n = some (ofQuotient false n 1) := by
  have hrank : rankOfQuotient n 1 < rankCount := by
    rw [rankOfQuotient_lt_rankCount_iff n Nat.one_ne_zero]
    simpa using h
  have hsign : decide ((n : ℤ) < 0) = false := by simp
  simp only [ofInt?, hsign, Int.natAbs_natCast, ofQuotient, ofRank, dif_pos hrank]

end NodeMemory.Binary64
