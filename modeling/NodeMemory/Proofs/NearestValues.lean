import NodeMemory.Proofs.Rounding
/-!
# Nearest values

A finite value is a number of units with a sign (`number?`). Which value is nearest to a number is
said without a rounding (`IsNearest`): no other one is nearer, and where another is as near the
nearest has an even rank; from the bound of overflow on it is infinite. The value of a quotient is
nearest to it (`isNearest_ofQuotient`). A number that some value is has that value, and whole
numbers of 53 bits are such numbers.
-/

namespace NodeMemory.Binary64

/-! ## Numbers -/

/-- The sign of a number. -/
def sign (negative : Bool) : ℚ := if negative then -1 else 1

/-- The number that a rank stands for without a sign. -/
def magnitude (rank : ℕ) : ℚ := units rank / one

/-- The number that a finite value is. -/
def number? : Binary64 → Option ℚ
  | .finite negative rank => some (sign negative * magnitude rank)
  | _ => none

/-- The value that is nearest to a number, and of two that are as near the one whose rank, and so the last
bit of its fraction, is even. From the bound of overflow on the nearest value is infinite. -/
inductive IsNearest (x : ℚ) : Binary64 → Prop
  | finite {negative : Bool} {rank : Fin rankCount} {q : ℚ} :
      |x| < overflowBound → number? (.finite negative rank) = some q →
      (∀ other p, number? other = some p → |x - q| ≤ |x - p| ∧ (p ≠ q → |x - p| = |x - q| → Even rank.val)) →
      IsNearest x (.finite negative rank)
  | infinite : overflowBound ≤ |x| → IsNearest x (.infinite (x < 0))

/-! ## Signs -/

theorem abs_sign_mul (negative : Bool) {a : ℚ} (ha : 0 ≤ a) : |sign negative * a| = a := by
  cases negative <;> simp [sign, abs_of_nonneg ha]

theorem abs_sign_mul_sub (negative : Bool) (a b : ℚ) : |sign negative * a - sign negative * b| = |a - b| := by
  cases negative <;> simp [sign, abs_sub_comm, neg_add_eq_sub]

/-- Numbers without their signs are nearer to each other. -/
theorem abs_sub_le_of_sign {a b : ℚ} (ha : 0 ≤ a) (hb : 0 ≤ b) (s t : Bool) :
    |a - b| ≤ |sign s * a - sign t * b| := by
  have h := abs_abs_sub_abs_le (sign s * a) (sign t * b)
  rwa [abs_sign_mul s ha, abs_sign_mul t hb] at h

/-- Only zero is as near to a number under either sign. -/
theorem sign_mul_eq_of_abs_sub {a b : ℚ} {s t : Bool} (h : |sign s * a - sign t * b| = |a - b|)
    (hzero : a = 0 → b = 0) : sign t * b = sign s * b := by
  by_cases hst : t = s
  · rw [hst]
  · have hsquare : (a + b) ^ 2 = (a - b) ^ 2 := by
      rw [← sq_abs (a - b), ← h, sq_abs]
      cases s <;> cases t <;> simp_all [sign]
      ring
    have hprod : a * b = 0 := by linarith
    have hb : b = 0 := (mul_eq_zero.1 hprod).elim hzero id
    rw [hb, mul_zero, mul_zero]

/-! ## Magnitudes of ranks -/

/-- One is this power of two, in units. -/
def oneExponent : ℕ := 1074

theorem one_eq : one = 2 ^ oneExponent := by
  unfold one oneExponent
  generalize 1074 = n
  exact Nat.pow_eq

theorem two_pow_fractionBits : 2 ^ 53 = 2 * fractionCount := by decide

theorem one_pos : (0 : ℚ) < one := by
  rw [cast_one]
  positivity

theorem overflowBound_pos : 0 < overflowBound := by
  have h := two_pow_lt_overflowBound (k := 0) (by omega)
  rw [pow_zero] at h
  linarith

theorem magnitude_nonneg (rank : ℕ) : 0 ≤ magnitude rank := div_nonneg (Nat.cast_nonneg _) one_pos.le

theorem magnitude_zero : magnitude 0 = 0 := by
  rw [magnitude, units, if_pos fractionCount_pos, Nat.cast_zero, zero_div]

theorem magnitude_lt_overflowBound_iff (rank : ℕ) : magnitude rank < overflowBound ↔ rank < rankCount := by
  rw [magnitude, div_lt_iff₀ one_pos, overflowBound_mul_one, (roundsTo_units rank).lt_rankCount_iff]

/-- The least magnitude that is no subnormal one. -/
def smallestNormal : ℚ := 1 / 2 ^ 1022

theorem smallestNormal_mul_one : smallestNormal * one = fractionCount := by
  have hsplit : (2 : ℚ) ^ 1074 = 2 ^ 52 * 2 ^ 1022 := pow_add 2 52 1022
  have hpos : (2 : ℚ) ^ 1022 ≠ 0 := by positivity
  rw [smallestNormal, cast_one, cast_fractionCount, hsplit]
  generalize (2 : ℚ) ^ 1022 = a at *
  rw [mul_left_comm, one_div_mul_cancel hpos, mul_one, zpow_ofNat]

theorem fractionCount_le_mul_one {a : ℚ} (h : smallestNormal ≤ a) : fractionCount ≤ a * one := by
  rw [← smallestNormal_mul_one]
  exact mul_le_mul_of_nonneg_right h one_pos.le

theorem smallestNormal_le_one : smallestNormal ≤ 1 := by
  rw [smallestNormal, div_le_one (by positivity)]
  exact one_le_pow₀ (by norm_num)

/-- A finite value is a number below the bound of overflow. -/
theorem abs_lt_overflowBound {v : Binary64} {q : ℚ} (h : v.number? = some q) : |q| < overflowBound := by
  cases v with
  | finite negative rank =>
    obtain rfl : sign negative * magnitude rank = q := Option.some.inj h
    rw [abs_sign_mul _ (magnitude_nonneg _)]
    exact (magnitude_lt_overflowBound_iff rank).2 rank.isLt
  | _ => cases h

/-- A distance to a magnitude, counted in units. -/
theorem abs_sub_magnitude (a : ℚ) (rank : ℕ) : |a - magnitude rank| = |a * one - units rank| / one := by
  have hdiff : a - magnitude rank = (a * one - units rank) / one := by
    rw [magnitude, sub_div, mul_div_cancel_right₀ _ one_pos.ne']
  rw [hdiff, abs_div, abs_of_pos one_pos]

theorem nearest_magnitude (num : ℕ) {den : ℕ} (hden : den ≠ 0) (other : ℕ) :
    |(num : ℚ) / den - magnitude (rankOfQuotient num den)| ≤ |(num : ℚ) / den - magnitude other| ∧
      (magnitude other ≠ magnitude (rankOfQuotient num den) →
        |(num : ℚ) / den - magnitude other| = |(num : ℚ) / den - magnitude (rankOfQuotient num den)| →
        Even (rankOfQuotient num den)) := by
  obtain ⟨hle, heven⟩ := (roundsTo_rankOfQuotient num hden).nearest other
  rw [abs_sub_magnitude, abs_sub_magnitude]
  refine ⟨div_le_div_of_nonneg_right hle one_pos.le, fun hne htie => ?_⟩
  refine heven (fun hunits => hne ?_) ((div_left_inj' one_pos.ne').1 htie)
  rw [magnitude, magnitude, hunits]

/-! ## The value of a quotient -/

theorem ofRank_of_lt (negative : Bool) {rank : ℕ} (h : rank < rankCount) :
    ofRank negative rank = .finite negative ⟨rank, h⟩ := dif_pos h

theorem ofRank_of_le (negative : Bool) {rank : ℕ} (h : rankCount ≤ rank) : ofRank negative rank = .infinite negative :=
  dif_neg (Nat.not_lt.2 h)

/-- The value of a quotient with a sign is nearest to it. -/
theorem isNearest_ofQuotient (negative : Bool) (num : ℕ) {den : ℕ} (hden : den ≠ 0) :
    IsNearest (sign negative * (num / den)) (ofQuotient negative num den) := by
  have hnear := nearest_magnitude num hden
  have hcount := rankOfQuotient_lt_rankCount_iff num hden
  have ha : (0 : ℚ) ≤ num / den := by positivity
  rw [ofQuotient]
  generalize (num : ℚ) / den = a at *
  generalize rankOfQuotient num den = rank at *
  by_cases h : rank < rankCount
  · rw [ofRank_of_lt negative h]
    refine .finite (by rwa [abs_sign_mul _ ha, ← hcount]) rfl ?_
    rintro (_ | _ | ⟨other, otherRank⟩) p hp
    · cases hp
    · cases hp
    obtain rfl : sign other * magnitude otherRank = p := Option.some.inj hp
    obtain ⟨hle, heven⟩ := hnear otherRank
    have hsign := abs_sub_le_of_sign ha (magnitude_nonneg otherRank) negative other
    rw [abs_sign_mul_sub]
    refine ⟨hle.trans hsign, fun hne htie => ?_⟩
    have hties := le_antisymm (hsign.trans htie.le) hle
    refine heven (fun hsame => hne ?_) hties
    -- Zero is its own nearest number, so a tie of two signs is between the two zeros.
    have hzero : a = 0 → magnitude rank = 0 := by
      rintro rfl
      have h0 := (hnear 0).1
      rw [magnitude_zero, sub_zero, abs_zero, zero_sub, abs_neg] at h0
      exact abs_nonpos_iff.1 h0
    rw [hsame] at htie ⊢
    exact sign_mul_eq_of_abs_sub htie hzero
  · have hbound : overflowBound ≤ a := not_lt.1 fun hlt => h (hcount.2 hlt)
    have hneg : decide (sign negative * a < 0) = negative := by
      have := overflowBound_pos
      cases negative <;> simp [sign] <;> linarith
    rw [ofRank_of_le negative (Nat.not_lt.1 h)]
    have hinf := IsNearest.infinite (x := sign negative * a) (by rwa [abs_sign_mul _ ha])
    rwa [hneg] at hinf

/-! ## Which values are nearest -/

namespace IsNearest
variable {x : ℚ} {v : Binary64}

theorem infinite_iff (h : IsNearest x v) : (∃ negative, v = .infinite negative) ↔ overflowBound ≤ |x| := by
  cases h with
  | finite hlt => simp [hlt]
  | infinite hle => simp [hle]

/-- A number that is a value is nearest to itself. -/
theorem number?_eq (h : IsNearest x v) {other : Binary64} (hother : other.number? = some x) : v.number? = some x := by
  cases h with
  | infinite hle => exact absurd (abs_lt_overflowBound hother) (not_lt.2 hle)
  | finite _ hq hnear =>
    have hself := (hnear other x hother).1
    rw [sub_self, abs_zero] at hself
    rw [hq, ← sub_eq_zero.1 (abs_nonpos_iff.1 hself)]

theorem exists_number? (h : IsNearest x v) (hx : |x| < overflowBound) : ∃ q, v.number? = some q := by
  cases h with
  | infinite hle => exact absurd hx (not_lt.2 hle)
  | finite _ hq _ => exact ⟨_, hq⟩

end IsNearest

theorem isNearest_natCast (n : ℕ) : IsNearest n (ofQuotient false n 1) := by
  simpa [sign] using isNearest_ofQuotient false n Nat.one_ne_zero

/-- Whole numbers of 53 bits are values with either sign, and so are their products with powers of two. -/
theorem exists_number?_eq (negative : Bool) {n k : ℕ} (hn : n ≤ 2 ^ 53) (hk : k ≤ 970) :
    ∃ v : Binary64, v.number? = some (sign negative * (2 ^ k * n)) := by
  obtain ⟨rank, hrank⟩ := exists_units_eq (hn.trans_eq two_pow_fractionBits) (k + oneExponent)
  have hmagnitude : magnitude rank = 2 ^ k * n := by
    rw [magnitude, hrank, div_eq_iff one_pos.ne', one_eq, pow_add]
    push_cast
    ring
  have hlt : rank < rankCount := by
    rw [← magnitude_lt_overflowBound_iff, hmagnitude]
    refine lt_of_le_of_lt ?_ (two_pow_lt_overflowBound (k := k + 53) (by omega))
    rw [pow_add]
    exact mul_le_mul_of_nonneg_left (by exact_mod_cast hn) (by positivity)
  exact ⟨.finite negative ⟨rank, hlt⟩, by rw [number?, hmagnitude]⟩

end NodeMemory.Binary64
