import NodeMemory.Proofs.NearestValues
/-!
# Scaled values

What powers change in a rounding. A product with a power of two is one rounding of the exact
product, unless its first factor was rounded as a subnormal (`ofQuotient_mul_two_pow`): the two
roundings take the same steps. A decimal is one rounding of its quotient, and the powers of ten
that are not computed for it do not matter (`ofDecimal_eq`).
-/

namespace NodeMemory.Binary64

/-! ## Products with powers of two -/

theorem one_ne_zero : one ≠ 0 := Nat.cast_ne_zero.1 one_pos.ne'

theorem units_zero : units 0 = 0 := if_pos fractionCount_pos

/-- A power of two in the range is one value. -/
theorem exists_ofQuotient_two_pow {k : ℕ} (hk : k ≤ 1023) :
    ∃ rank h, ofQuotient false (2 ^ k) 1 = .finite false ⟨rank, h⟩ ∧ units rank = 2 ^ k * one := by
  have hsteps : 1 ≤ 2 * fractionCount := Nat.mul_pos two_pos fractionCount_pos
  obtain ⟨rank, hrank⟩ := exists_units_eq hsteps (k + oneExponent)
  have hunits : units rank = 2 ^ k * one := by rw [hrank, Nat.mul_one, pow_add, one_eq]
  have heq : rankOfQuotient (2 ^ k) 1 = rank := rankOfQuotient_eq_of_units Nat.one_ne_zero (by rw [Nat.mul_one, hunits])
  have hlt : rank < rankCount := by
    rw [← heq, rankOfQuotient_lt_rankCount_iff _ Nat.one_ne_zero]
    simpa using two_pow_lt_overflowBound hk
  exact ⟨rank, hlt, by rw [ofQuotient, heq, ofRank_of_lt false hlt], hunits⟩

/-- What scaling by 2^`k` makes of a rank that is no subnormal one. Zero stays. -/
def scaleRank (k rank : ℕ) : ℕ := if rank = 0 then 0 else rank + k * fractionCount

/-- A magnitude that is no subnormal one, times a power of two, is a magnitude. -/
theorem rankOfQuotient_units_mul {rank : ℕ} (h : rank = 0 ∨ fractionCount ≤ rank) (k : ℕ) :
    rankOfQuotient (units rank * (2 ^ k * one)) (one * one) = scaleRank k rank := by
  rw [scaleRank]
  split
  · next h0 => rw [h0, units_zero, Nat.zero_mul, rankOfQuotient, if_pos rfl]
  · next h0 =>
    refine rankOfQuotient_eq_of_units (Nat.mul_ne_zero one_ne_zero one_ne_zero) ?_
    rw [units_scale (h.resolve_left h0)]
    ring

section Products
variable {num den : ℕ} (hden : den ≠ 0) (h : num = 0 ∨ smallestNormal ≤ (num : ℚ) / den)
include hden h

theorem rankOfQuotient_normal : rankOfQuotient num den = 0 ∨ fractionCount ≤ rankOfQuotient num den :=
  h.imp (fun h => if_pos h) fun h =>
    (roundsTo_rankOfQuotient num hden).fractionCount_le (fractionCount_le_mul_one h)

theorem rankOfQuotient_two_pow_mul (k : ℕ) :
    rankOfQuotient (2 ^ k * num) den = scaleRank k (rankOfQuotient num den) := by
  rw [scaleRank]
  rcases h with rfl | h
  · simp [rankOfQuotient]
  · have h := fractionCount_le_mul_one h
    have hle := (roundsTo_rankOfQuotient num hden).fractionCount_le h
    have hpos := fractionCount_pos
    rw [rankOfQuotient_scale hden h, if_neg (by omega)]

/-- A product with a power of two is one rounding of the exact product, unless the first factor was rounded
as a subnormal. -/
theorem ofQuotient_mul_two_pow (negative : Bool) {k : ℕ} (hk : k ≤ 1023) :
    (ofQuotient negative num den).mul (ofQuotient false (2 ^ k) 1) = ofQuotient negative (2 ^ k * num) den := by
  obtain ⟨power, hpower, hvalue, hunits⟩ := exists_ofQuotient_two_pow hk
  have hnormal := rankOfQuotient_normal hden h
  rw [hvalue, ofQuotient, ofQuotient, rankOfQuotient_two_pow_mul hden h]
  generalize rankOfQuotient num den = rank at *
  by_cases hlt : rank < rankCount
  · rw [ofRank_of_lt negative hlt, mul, Bool.bne_false, ofQuotient, hunits, rankOfQuotient_units_mul hnormal]
  · have hscaled : rankCount ≤ scaleRank k rank := by
      have : 0 < rankCount := Nat.mul_pos (by omega) fractionCount_pos
      rw [scaleRank, if_neg (by omega)]
      omega
    have hpos : power ≠ 0 := by
      rintro rfl
      exact Nat.mul_ne_zero (Nat.pow_pos two_pos).ne' one_ne_zero (hunits.symm.trans units_zero)
    rw [ofRank_of_le negative (Nat.not_lt.1 hlt), ofRank_of_le negative hscaled, mul, if_neg hpos, Bool.bne_false]

end Products

theorem mul_comm (x y : Binary64) : x.mul y = y.mul x := by
  cases x <;> cases y <;> simp only [mul, Nat.mul_comm, bne_comm]

/-! ## Decimals -/

theorem two_pow_le_ten_pow {m n : ℕ} (h : m ≤ 3 * n) : 2 ^ m ≤ 10 ^ n :=
  calc 2 ^ m ≤ 2 ^ (3 * n) := Nat.pow_le_pow_right two_pos h
    _ = 8 ^ n := by rw [pow_mul]; rfl
    _ ≤ 10 ^ n := Nat.pow_le_pow_left (by omega) n

/-- A quotient of at most half a unit is rounded to zero. -/
theorem rankOfQuotient_eq_zero {num den : ℕ} (hden : den ≠ 0) (h : 2 * num * one ≤ den) :
    rankOfQuotient num den = 0 := by
  have hpos : (0 : ℚ) < den := by exact_mod_cast Nat.pos_of_ne_zero hden
  have hhalf : (num : ℚ) / den * one ≤ 1 / 2 := by
    rw [div_mul_eq_mul_div, div_le_div_iff₀ hpos two_pos]
    have h : (2 * num * one : ℚ) ≤ den := by exact_mod_cast h
    linarith
  have hnonneg : (0 : ℚ) ≤ num / den * one := mul_nonneg (by positivity) one_pos.le
  have hone : (1 : ℚ) ≤ fractionCount := by exact_mod_cast fractionCount_pos
  refine (roundsTo_rankOfQuotient num hden).unique ⟨0, 0, ⟨by linarith, .inl rfl⟩, ⟨?_, fun _ => ⟨0, rfl⟩⟩, rfl⟩
  rwa [pow_zero, div_one, Nat.cast_zero, sub_zero, abs_of_nonneg hnonneg]

/-- The value of a decimal is one rounding of its quotient: no power of ten that was left out matters. -/
theorem ofDecimal_eq (negative : Bool) (digits : ℕ) (exponent : ℤ) :
    ofDecimal negative digits exponent =
      ofQuotient negative (digits * 10 ^ exponent.toNat) (10 ^ (-exponent).toNat) := by
  have hten (n : ℕ) : 10 ^ n ≠ 0 := (Nat.pow_pos (by omega)).ne'
  rw [ofDecimal]
  split
  · next h => rw [h, Nat.zero_mul, ofQuotient, rankOfQuotient, if_pos rfl]
  split
  · next hdigits hhigh =>
    have hle : overflowBound ≤ ((digits * 10 ^ exponent.toNat : ℕ) : ℚ) / (10 ^ (-exponent).toNat : ℕ) := by
      have hpow : 2 ^ 1024 ≤ digits * 10 ^ exponent.toNat :=
        (two_pow_le_ten_pow (by omega)).trans (Nat.le_mul_of_pos_left _ (Nat.pos_of_ne_zero hdigits))
      have hpow : ((2 ^ 1024 : ℕ) : ℚ) ≤ (digits * 10 ^ exponent.toNat : ℕ) := Nat.cast_le.2 hpow
      rw [Nat.cast_pow, Nat.cast_ofNat] at hpow
      rw [show (-exponent).toNat = 0 by omega, pow_zero, Nat.cast_one, div_one, overflowBound]
      exact (sub_le_self _ (by positivity)).trans hpow
    rw [ofQuotient, ofRank_of_le]
    exact Nat.not_lt.1 fun h => not_lt.2 hle ((rankOfQuotient_lt_rankCount_iff _ (hten _)).1 h)
  split
  · next hlow =>
    have hzero : exponent.toNat = 0 := by omega
    have hle : 2 * digits * one ≤ 10 ^ (-exponent).toNat :=
      calc 2 * digits * one ≤ 2 * 2 ^ (digits.log2 + 1) * 2 ^ oneExponent := by
            rw [one_eq]
            exact Nat.mul_le_mul_right _ (Nat.mul_le_mul_left 2 Nat.lt_log2_self.le)
        _ = 2 ^ (digits.log2 + 2 + oneExponent) := by ring
        _ ≤ _ := two_pow_le_ten_pow (by rw [oneExponent]; omega)
    rw [ofQuotient, hzero, pow_zero, Nat.mul_one, rankOfQuotient_eq_zero (hten _) hle]
  · simp only [Nat.pow_eq]

theorem cast_decimal (digits : ℕ) (exponent : ℤ) :
    ((digits * 10 ^ exponent.toNat : ℕ) : ℚ) / (10 ^ (-exponent).toNat : ℕ) = digits * 10 ^ exponent := by
  rw [zpow_eq_div, ← mul_div_assoc]
  push_cast
  rfl

end NodeMemory.Binary64
