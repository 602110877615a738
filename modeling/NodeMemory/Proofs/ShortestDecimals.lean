import Mathlib.Algebra.Order.Group.Pointwise.Interval
import NodeMemory.Proofs.Numerals
import NodeMemory.Proofs.ScaledValues
/-!
# The shortest decimal

A decimal is read as a magnitude if it lies near enough to it, and what lies between two such
decimals is read so too (`RoundsTo.between`). So among the decimals of so many digits only the two
next to the magnitude have to be looked at, and seventeen digits always suffice. The decimal that
is found first, by numbers of digits, is read as the magnitude, has the fewest digits of all that
are, and lies nearest among those of as many (`isShortest_shortest`).
-/

namespace NodeMemory

namespace Binary64

/-! ## Numbers that are rounded to one rank -/

theorem NearestWhole.mono {x y : ℚ} {m n : ℕ} (hm : NearestWhole x m) (hn : NearestWhole y n) (h : x ≤ y) :
    m ≤ n := by
  by_contra hlt
  have hmn : (n : ℚ) + 1 ≤ m := by exact_mod_cast Nat.lt_of_not_le hlt
  have hx := abs_le.1 hm.1
  have hy := abs_le.1 hn.1
  -- Only the middle between two neighbours is left, and it has one nearest number.
  obtain rfl : x = y := by linarith
  exact hlt (hm.unique hn).le

theorem RoundsTo.mono {v w : ℚ} {a b : ℕ} (ha : RoundsTo v a) (hb : RoundsTo w b) (h : v ≤ w) : a ≤ b := by
  obtain ⟨e, n, he, hn, rfl⟩ := ha
  obtain ⟨f, m, hf, hm, rfl⟩ := hb
  rcases Nat.lt_or_eq_of_le (he.mono hf h) with hlt | rfl
  · have hle := (he.steps_le hn).1
    have hge := (hf.steps_le hm).2.resolve_left (by omega)
    calc e * fractionCount + n ≤ e * fractionCount + 2 * fractionCount := Nat.add_le_add_left hle _
      _ = (e + 1) * fractionCount + fractionCount := by ring
      _ ≤ f * fractionCount + m := Nat.add_le_add (Nat.mul_le_mul_right _ hlt) hge
  · have hnm : n ≤ m := hn.mono hm (div_le_div_of_nonneg_right h (by positivity))
    omega

theorem exists_roundsTo {v : ℚ} (hv : 0 ≤ v) : ∃ rank, RoundsTo v rank := by
  have h := roundsTo_rankOfQuotient (v / one).num.toNat (v / one).den_nz
  have hnum : ((v / one).num.toNat : ℚ) = (v / one).num := by
    have hpos : 0 ≤ (v / one).num := Rat.num_nonneg.2 (div_nonneg hv one_pos.le)
    exact_mod_cast Int.toNat_of_nonneg hpos
  rw [hnum, Rat.num_div_den, div_mul_cancel₀ _ one_pos.ne'] at h
  exact ⟨_, h⟩

/-- What lies between two numbers that are rounded to one rank is rounded to it. -/
theorem RoundsTo.between {u v w : ℚ} {rank : ℕ} (hu : RoundsTo u rank) (hw : RoundsTo w rank) (h0 : 0 ≤ u)
    (huv : u ≤ v) (hvw : v ≤ w) : RoundsTo v rank := by
  obtain ⟨r, hr⟩ := exists_roundsTo (h0.trans huv)
  have hle := hu.mono hr huv
  have hge := hr.mono hw hvw
  obtain rfl : r = rank := by omega
  exact hr

/-- A number of steps is rounded to the whole number that it is less than half a step away from. -/
theorem roundsTo_of_steps {x : ℚ} {e n : ℕ} (hlow : e = 0 ∨ fractionCount ≤ x) (hhigh : x < 2 * fractionCount)
    (hn : |x - n| < 1 / 2) : RoundsTo (x * 2 ^ e) (e * fractionCount + n) := by
  have hstep : (0 : ℚ) < 2 ^ e := by positivity
  refine ⟨e, n, ⟨mul_lt_mul_of_pos_right hhigh hstep, ?_⟩, ?_, rfl⟩
  · exact hlow.imp_right fun hlow => mul_le_mul_of_nonneg_right hlow hstep.le
  · rw [mul_div_cancel_right₀ _ hstep.ne']
    exact ⟨hn.le, fun he => absurd he hn.ne⟩

/-- A number that differs by less than one part in 2^54 from a magnitude is rounded to it. -/
theorem roundsTo_of_near {v : ℚ} {rank : ℕ} (h : |v - units rank| * 2 ^ 54 < units rank) : RoundsTo v rank := by
  obtain ⟨e, n, rfl, hn, hlow⟩ := exists_steps rank
  have hstep : (0 : ℚ) < 2 ^ e := by positivity
  have hone : (1 : ℚ) ≤ fractionCount := by exact_mod_cast fractionCount_pos
  have hbits : (n : ℚ) + 1 ≤ 2 * fractionCount := by exact_mod_cast hn
  obtain ⟨x, rfl⟩ : ∃ x, v = x * 2 ^ e := ⟨v / 2 ^ e, (div_mul_cancel₀ _ hstep.ne').symm⟩
  -- The distance, counted in steps.
  have hnear : |x - n| * (4 * fractionCount) < n := by
    have hcount : (2 : ℚ) ^ 54 = 4 * fractionCount := by rw [cast_fractionCount]; norm_num
    rw [units_eq hn.le hlow, Nat.cast_mul, Nat.cast_pow, Nat.cast_ofNat, ← sub_mul, abs_mul, abs_of_pos hstep,
      mul_right_comm, hcount] at h
    exact lt_of_mul_lt_mul_right h hstep.le
  have hhalf : |x - n| < 1 / 2 := by
    have : |x - n| * (4 * fractionCount) < 1 / 2 * (4 * fractionCount) := by linarith
    exact lt_of_mul_lt_mul_right this (by linarith)
  have hx := abs_lt.1 hhalf
  by_cases hge : e = 0 ∨ (fractionCount : ℚ) ≤ x
  · exact roundsTo_of_steps hge (by linarith) hhalf
  · -- A number below the magnitudes of the exponent is near to the first of them only, and has finer steps.
    obtain ⟨he, hlt⟩ := not_or.1 hge
    have hn1 : (n : ℚ) < fractionCount + 1 := by linarith
    obtain rfl : n = fractionCount := le_antisymm (Nat.lt_succ_iff.1 (by exact_mod_cast hn1)) (hlow.resolve_left he)
    have hquarter : |x - fractionCount| < 1 / 4 := by
      have : |x - fractionCount| * (4 * fractionCount) < 1 / 4 * (4 * fractionCount) := by linarith
      exact lt_of_mul_lt_mul_right this (by linarith)
    have htwice : |x * 2 - (2 * fractionCount : ℕ)| < 1 / 2 := by
      have := abs_lt.1 hquarter
      rw [Nat.cast_mul, Nat.cast_ofNat, abs_lt]
      constructor <;> linarith
    obtain ⟨f, rfl⟩ : ∃ f, e = f + 1 := Nat.exists_eq_succ_of_ne_zero he
    have hrank : (f + 1) * fractionCount + fractionCount = f * fractionCount + 2 * fractionCount := by ring
    rw [pow_succ', ← mul_assoc, hrank]
    exact roundsTo_of_steps (.inr (by linarith)) (by linarith) htwice

theorem ofRank_eq_finite_iff {s negative : Bool} {r : ℕ} {rank : Fin rankCount} :
    ofRank s r = .finite negative rank ↔ s = negative ∧ r = rank.val := by
  rw [ofRank]
  split
  · simp [Fin.ext_iff]
  · next h =>
    constructor
    · intro he
      cases he
    · rintro ⟨-, rfl⟩
      exact absurd rank.isLt h

end Binary64

open Binary64

namespace Decimal

/-! ## The number of a decimal -/

/-- The number that a decimal stands for. -/
def number (d : Decimal) : ℚ := d.digits * 10 ^ d.exponent

theorem number_nonneg (d : Decimal) : 0 ≤ d.number := by
  unfold number
  positivity

/-- The last place that any magnitude has. -/
def lastPlace : ℚ := (10 ^ oneExponent)⁻¹

theorem lastPlace_pos : 0 < lastPlace := by
  unfold lastPlace
  positivity

theorem number_onGrid (m drop : ℕ) : number ⟨m, drop - 1074⟩ = (m * 10 ^ drop : ℕ) * lastPlace := by
  have hexponent : (drop : ℤ) - 1074 = drop - (oneExponent : ℕ) := rfl
  rw [number, lastPlace, hexponent, zpow_sub₀ (by norm_num), zpow_natCast, zpow_natCast, div_eq_mul_inv, ← mul_assoc,
    Nat.cast_mul, Nat.cast_pow, Nat.cast_ofNat]

theorem tenths_eq (rank : ℕ) : tenths rank = units rank * 5 ^ oneExponent := by
  unfold tenths oneExponent
  generalize 1074 = n
  rfl

/-- Every magnitude is a whole number of its last places. -/
theorem magnitude_eq (rank : ℕ) : magnitude rank = tenths rank * lastPlace := by
  rw [magnitude, lastPlace, tenths_eq, one_eq, show (10 : ℚ) = 5 * 2 by norm_num]
  push_cast
  rw [mul_pow, mul_inv, mul_assoc, mul_inv_cancel_left₀ (by positivity), div_eq_mul_inv]

/-! ## Decimals that are read as one magnitude -/

section Readings
variable {rank : Fin rankCount}

/-- A decimal with a sign is read as a value when it is read as the magnitude of it. -/
theorem ofDecimal_eq_finite_iff {s negative : Bool} {d : Decimal} :
    ofDecimal s d.digits d.exponent = .finite negative rank ↔ s = negative ∧ d.ReadsAs rank := by
  rw [ReadsAs, ofDecimal_eq, ofDecimal_eq, ofQuotient, ofQuotient, ofRank_of_lt false rank.isLt, ofRank_eq_finite_iff,
    ofRank_eq_finite_iff, eq_self, true_and]

theorem readsAs_iff (d : Decimal) : d.ReadsAs rank ↔ RoundsTo (d.number * one) rank := by
  have hden : 10 ^ (-d.exponent).toNat ≠ 0 := (Nat.pow_pos (by decide)).ne'
  have h := roundsTo_rankOfQuotient (d.digits * 10 ^ d.exponent.toNat) hden
  rw [cast_decimal] at h
  rw [ReadsAs, ofDecimal_eq, ofQuotient, ofRank_of_lt false rank.isLt, ofRank_eq_finite_iff, eq_self, true_and]
  exact ⟨fun he => he ▸ h, h.unique⟩

/-- Decimals of one number are read alike. -/
theorem ReadsAs.of_number_eq {d other : Decimal} (h : other.ReadsAs rank) (hd : d.number = other.number) :
    d.ReadsAs rank := by
  rwa [readsAs_iff, hd, ← readsAs_iff]

theorem magnitude_mul_one (rank : ℕ) : magnitude rank * one = units rank := by
  rw [magnitude, div_mul_cancel₀ _ one_pos.ne']

/-- What lies between a magnitude and a decimal that is read as it is read so too. -/
theorem ReadsAs.of_mem_uIcc {d other : Decimal} (h : other.ReadsAs rank)
    (hd : d.number ∈ Set.uIcc (magnitude rank) other.number) : d.ReadsAs rank := by
  have hone := one_pos.le
  rw [readsAs_iff] at h ⊢
  have hunits := roundsTo_units rank
  rw [← magnitude_mul_one] at hunits
  rcases Set.mem_uIcc.1 hd with ⟨hle, hge⟩ | ⟨hle, hge⟩
  · exact hunits.between h (mul_nonneg (magnitude_nonneg rank) hone) (mul_le_mul_of_nonneg_right hle hone)
      (mul_le_mul_of_nonneg_right hge hone)
  · exact h.between hunits (mul_nonneg other.number_nonneg hone) (mul_le_mul_of_nonneg_right hle hone)
      (mul_le_mul_of_nonneg_right hge hone)

/-! ## Neighbours of a magnitude -/

/-- The multiples of 10^`drop` last places next to a magnitude: the one that is at most it, and the one after. -/
def below (rank drop : ℕ) : Decimal := ⟨tenths rank / 10 ^ drop, drop - 1074⟩

def above (rank drop : ℕ) : Decimal := ⟨tenths rank / 10 ^ drop + 1, drop - 1074⟩

theorem below_sub (rank drop : ℕ) :
    magnitude rank - (below rank drop).number = (tenths rank % 10 ^ drop : ℕ) * lastPlace := by
  have h : ((10 ^ drop * (tenths rank / 10 ^ drop) + tenths rank % 10 ^ drop : ℕ) : ℚ) = tenths rank :=
    congrArg Nat.cast (Nat.div_add_mod _ _)
  rw [below, number_onGrid, magnitude_eq, ← h]
  push_cast
  ring

theorem above_eq (rank drop : ℕ) : (above rank drop).number = (below rank drop).number + 10 ^ drop * lastPlace := by
  rw [above, below, number_onGrid, number_onGrid]
  push_cast
  ring

theorem below_le (rank drop : ℕ) : (below rank drop).number ≤ magnitude rank := by
  have h := below_sub rank drop
  have hpos : 0 ≤ ((tenths rank % 10 ^ drop : ℕ) : ℚ) * lastPlace := mul_nonneg (Nat.cast_nonneg _) lastPlace_pos.le
  linarith

theorem le_above (rank drop : ℕ) : magnitude rank ≤ (above rank drop).number := by
  have h := below_sub rank drop
  have hlt : ((tenths rank % 10 ^ drop : ℕ) : ℚ) ≤ 10 ^ drop := by
    exact_mod_cast (Nat.mod_lt _ (Nat.pow_pos (by decide))).le
  have := mul_le_mul_of_nonneg_right hlt lastPlace_pos.le
  rw [above_eq]
  linarith

theorem abs_below_sub (rank drop : ℕ) :
    |(below rank drop).number - magnitude rank| = (tenths rank % 10 ^ drop : ℕ) * lastPlace := by
  rw [abs_sub_comm, abs_of_nonneg (sub_nonneg.2 (below_le rank drop)), below_sub]

theorem abs_above_sub (rank drop : ℕ) :
    |(above rank drop).number - magnitude rank| = (10 ^ drop - (tenths rank % 10 ^ drop : ℕ)) * lastPlace := by
  rw [abs_of_nonneg (sub_nonneg.2 (le_above rank drop)), above_eq, sub_mul, ← below_sub]
  ring

/-- A multiple of 10^`drop` last places is no nearer than a neighbour. -/
theorem onGrid_le_or_le (rank m drop : ℕ) :
    (m * 10 ^ drop : ℕ) * lastPlace ≤ (below rank drop).number ∨
      (above rank drop).number ≤ (m * 10 ^ drop : ℕ) * lastPlace := by
  have hmul {a b : ℕ} (h : a ≤ b) : ((a * 10 ^ drop : ℕ) : ℚ) * lastPlace ≤ (b * 10 ^ drop : ℕ) * lastPlace :=
    mul_le_mul_of_nonneg_right (by exact_mod_cast Nat.mul_le_mul_right _ h) lastPlace_pos.le
  rw [below, above, number_onGrid, number_onGrid]
  rcases Nat.lt_or_ge (tenths rank / 10 ^ drop) m with h | h
  · exact .inr (hmul h)
  · exact .inl (hmul h)

/-- A decimal of a few digits is no nearer to a magnitude than one of its neighbours on the grid of as many digits. -/
theorem le_below_or_above_le {rank k w : ℕ} (hk : 1 ≤ k) (hkw : k ≤ w) (hw : 10 ^ (w - 1) ≤ tenths rank) {d : Decimal}
    (hd : d.digits < 10 ^ k) :
    d.number ≤ (below rank (w - k)).number ∨ (above rank (w - k)).number ≤ d.number := by
  by_cases he : (w - k : ℕ) - 1074 ≤ d.exponent
  · -- A multiple of the grid's steps.
    obtain ⟨n, hn⟩ : ∃ n : ℕ, d.exponent = (w - k + n : ℕ) - 1074 := ⟨(d.exponent + 1074 - (w - k : ℕ)).toNat, by omega⟩
    have hnumber : d.number = (d.digits * 10 ^ n * 10 ^ (w - k) : ℕ) * lastPlace := by
      rw [mul_assoc, ← pow_add, add_comm n, ← number_onGrid, ← hn]
    rw [hnumber]
    exact onGrid_le_or_le _ _ _
  · -- With finer steps, so few digits do not reach the first power of ten below the magnitude.
    have hpower : (below rank (w - k)).number ≥ (10 ^ (w - 1) : ℕ) * lastPlace := by
      have hdiv : 10 ^ (k - 1) ≤ tenths rank / 10 ^ (w - k) := by
        rw [Nat.le_div_iff_mul_le (Nat.pow_pos (by decide)), ← pow_add]
        rwa [show k - 1 + (w - k) = w - 1 by omega]
      rw [below, number_onGrid, show w - 1 = k - 1 + (w - k) by omega, pow_add]
      exact mul_le_mul_of_nonneg_right (by exact_mod_cast Nat.mul_le_mul_right _ hdiv) lastPlace_pos.le
    have hsmall : d.number ≤ (10 ^ (w - 1) : ℕ) * lastPlace :=
      calc d.number ≤ 10 ^ k * 10 ^ d.exponent :=
            mul_le_mul_of_nonneg_right (by exact_mod_cast hd.le) (by positivity)
        _ = 10 ^ (k + d.exponent) := by rw [zpow_add₀ (by norm_num), zpow_natCast]
        _ ≤ 10 ^ (((w - 1 : ℕ) : ℤ) - 1074) := zpow_le_zpow_right₀ (by norm_num) (by omega)
        _ = number ⟨1, (w - 1 : ℕ) - 1074⟩ := by rw [number, Nat.cast_one, one_mul]
        _ = (10 ^ (w - 1) : ℕ) * lastPlace := by rw [number_onGrid, one_mul]
    exact .inl (hsmall.trans hpower)

/-- A decimal that is one of the two neighbours of a magnitude. -/
def IsNeighbour (rank drop : ℕ) (d : Decimal) : Prop := d = below rank drop ∨ d = above rank drop

/-- Between a magnitude and a decimal of few digits there is a neighbour on the grid of as many digits. -/
theorem exists_isNeighbour {rank k w : ℕ} (hk : 1 ≤ k) (hkw : k ≤ w) (hw : 10 ^ (w - 1) ≤ tenths rank) {d : Decimal}
    (hd : d.digits < 10 ^ k) :
    ∃ near, IsNeighbour rank (w - k) near ∧ near.number ∈ Set.uIcc (magnitude rank) d.number := by
  rcases le_below_or_above_le hk hkw hw hd with h | h
  · exact ⟨_, .inl rfl, Set.mem_uIcc.2 (.inr ⟨h, below_le _ _⟩)⟩
  · exact ⟨_, .inr rfl, Set.mem_uIcc.2 (.inl ⟨le_above _ _, h⟩)⟩

/-- One of the neighbours is at most half a step away. -/
theorem exists_isNeighbour_near (rank drop : ℕ) :
    ∃ near, IsNeighbour rank drop near ∧ 2 * |near.number - magnitude rank| ≤ 10 ^ drop * lastPlace := by
  have hle := below_le rank drop
  have hge := le_above rank drop
  have habove := above_eq rank drop
  by_cases h : 2 * (magnitude rank - (below rank drop).number) ≤ 10 ^ drop * lastPlace
  · refine ⟨_, .inl rfl, ?_⟩
    rwa [abs_sub_comm, abs_of_nonneg (by linarith)]
  · refine ⟨_, .inr rfl, ?_⟩
    rw [abs_of_nonneg (by linarith)]
    linarith

/-- On a grid that has seventeen digits or more below the magnitude, a neighbour is read as it. -/
theorem exists_isNeighbour_readsAs {rank : Fin rankCount} {drop : ℕ} (h : 10 ^ 16 * 10 ^ drop ≤ tenths rank) :
    ∃ near, IsNeighbour rank drop near ∧ near.ReadsAs rank := by
  obtain ⟨near, hnear, hhalf⟩ := exists_isNeighbour_near rank drop
  refine ⟨near, hnear, (readsAs_iff near).2 (roundsTo_of_near ?_)⟩
  have h : (10 : ℚ) ^ 16 * 10 ^ drop ≤ tenths rank := by exact_mod_cast h
  have hstep : 0 < 10 ^ drop * lastPlace := mul_pos (by positivity) lastPlace_pos
  rw [← magnitude_mul_one, ← sub_mul, abs_mul, abs_of_pos one_pos, mul_right_comm]
  refine mul_lt_mul_of_pos_right ?_ Binary64.one_pos
  calc |near.number - magnitude rank| * 2 ^ 54 = 2 * |near.number - magnitude rank| * 2 ^ 53 := by ring
    _ ≤ 10 ^ drop * lastPlace * 2 ^ 53 := mul_le_mul_of_nonneg_right hhalf (by positivity)
    _ < 10 ^ drop * lastPlace * 10 ^ 16 := mul_lt_mul_of_pos_left (by norm_num) hstep
    _ = 10 ^ 16 * 10 ^ drop * lastPlace := by ring
    _ ≤ magnitude rank := by
      rw [magnitude_eq]
      exact mul_le_mul_of_nonneg_right h lastPlace_pos.le

/-! ## The choice on a grid -/

theorem onGrid?_eq (rank drop : ℕ) :
    onGrid? rank (tenths rank) drop =
      if (below rank drop).ReadsAs rank then
        if (above rank drop).ReadsAs rank then
          if 2 * (tenths rank % 10 ^ drop) < 10 ^ drop then some (below rank drop)
          else if 10 ^ drop < 2 * (tenths rank % 10 ^ drop) then some (above rank drop)
          else if (below rank drop).digits % 2 = 0 then some (below rank drop)
          else some (above rank drop)
        else some (below rank drop)
      else if (above rank drop).ReadsAs rank then some (above rank drop)
      else none := rfl

theorem onGrid?_eq_none {rank : Fin rankCount} {drop : ℕ} {near : Decimal}
    (h : onGrid? rank (tenths rank) drop = none) (hn : IsNeighbour rank drop near) : ¬near.ReadsAs rank := by
  rw [onGrid?_eq] at h
  rcases hn with rfl | rfl
  · intro hb
    rw [if_pos hb] at h
    split_ifs at h
  · intro ha
    rw [if_pos ha, if_pos ha] at h
    split_ifs at h

theorem isNeighbour_of_onGrid? {rank drop : ℕ} {d : Decimal} (h : onGrid? rank (tenths rank) drop = some d) :
    IsNeighbour rank drop d := by
  rw [onGrid?_eq] at h
  split_ifs at h <;> cases h
  all_goals first | exact .inl rfl | exact .inr rfl

/-- Of two neighbours that are read as the magnitude the grid gives the nearer one. -/
theorem abs_sub_le_of_onGrid? {rank : Fin rankCount} {drop : ℕ} {d near : Decimal}
    (h : onGrid? rank (tenths rank) drop = some d) (hn : IsNeighbour rank drop near) (hread : near.ReadsAs rank) :
    |d.number - magnitude rank| ≤ |near.number - magnitude rank| := by
  have hbelow := abs_below_sub rank drop
  have habove := abs_above_sub rank drop
  have hmul {x y : ℚ} (hxy : x ≤ y) : x * lastPlace ≤ y * lastPlace := mul_le_mul_of_nonneg_right hxy lastPlace_pos.le
  rw [onGrid?_eq] at h
  rcases hn with rfl | rfl
  · rw [if_pos hread] at h
    have hfar (hhalf : ¬2 * (tenths rank % 10 ^ drop) < 10 ^ drop) :
        |(above rank drop).number - magnitude rank| ≤ |(below rank drop).number - magnitude rank| := by
      have hhalf : (10 : ℚ) ^ drop ≤ 2 * (tenths rank % 10 ^ drop : ℕ) := by exact_mod_cast Nat.not_lt.1 hhalf
      rw [hbelow, habove]
      exact hmul (by linarith)
    split_ifs at h with ha hlow hhigh heven <;> cases h
    · exact le_rfl
    · exact hfar hlow
    · exact le_rfl
    · exact hfar hlow
    · exact le_rfl
  · rw [if_pos hread, if_pos hread] at h
    have hfar (hhalf : 2 * (tenths rank % 10 ^ drop) ≤ 10 ^ drop) :
        |(below rank drop).number - magnitude rank| ≤ |(above rank drop).number - magnitude rank| := by
      have hhalf : 2 * ((tenths rank % 10 ^ drop : ℕ) : ℚ) ≤ 10 ^ drop := by exact_mod_cast hhalf
      rw [hbelow, habove]
      exact hmul (by linarith)
    split_ifs at h with hb hlow hhigh heven <;> cases h
    · exact hfar hlow.le
    · exact le_rfl
    · exact hfar (Nat.not_lt.1 hhigh)
    · exact le_rfl
    · exact le_rfl

/-! ## Numbers of digits -/

theorem le_powerAbove (n fuel k : ℕ) : k ≤ powerAbove n fuel k := by
  induction fuel generalizing k with
  | zero => exact le_rfl
  | succ fuel ih =>
    rw [powerAbove]
    split
    · exact le_rfl
    · exact (Nat.le_succ k).trans (ih _)

theorem lt_powerAbove {n fuel k : ℕ} (h : n < 10 ^ (k + fuel)) : n < 10 ^ powerAbove n fuel k := by
  induction fuel generalizing k with
  | zero => exact h
  | succ fuel ih =>
    rw [powerAbove]
    split
    · assumption
    · exact ih (by rwa [Nat.add_right_comm, Nat.add_assoc])

theorem powerAbove_le {n fuel k : ℕ} (h : 10 ^ (k - 1) ≤ n) : 10 ^ (powerAbove n fuel k - 1) ≤ n := by
  induction fuel generalizing k with
  | zero => exact h
  | succ fuel ih =>
    rw [powerAbove]
    split
    · exact h
    · next hk => exact ih (Nat.not_lt.1 hk)

theorem lt_width (n : ℕ) : n < 10 ^ width n :=
  lt_powerAbove <|
    calc n < 2 ^ (n.log2 + 1) := Nat.lt_log2_self
      _ ≤ 10 ^ (n.log2 + 1) := Nat.pow_le_pow_left (by decide) _
      _ ≤ 10 ^ (n.log2 * 3 / 10 + 1 + (n.log2 + 1)) := Nat.pow_le_pow_right (by decide) (by omega)

theorem width_pos (n : ℕ) : 0 < width n := Nat.lt_of_lt_of_le (Nat.succ_pos _) (le_powerAbove _ _ _)

theorem ten_pow_le_two_pow (bits : ℕ) : 10 ^ (bits * 3 / 10) ≤ 2 ^ bits := by
  refine (Nat.pow_le_pow_iff_left (show 3 ≠ 0 by decide)).1 ?_
  calc (10 ^ (bits * 3 / 10)) ^ 3 = 1000 ^ (bits * 3 / 10) := by rw [← pow_mul, Nat.mul_comm, pow_mul]; rfl
    _ ≤ 1024 ^ (bits * 3 / 10) := Nat.pow_le_pow_left (by decide) _
    _ = 2 ^ (10 * (bits * 3 / 10)) := by rw [pow_mul]; rfl
    _ ≤ 2 ^ (bits * 3) := Nat.pow_le_pow_right (by decide) (Nat.mul_div_le _ _)
    _ = (2 ^ bits) ^ 3 := pow_mul _ _ _

theorem width_le {n : ℕ} (h : n ≠ 0) : 10 ^ (width n - 1) ≤ n :=
  powerAbove_le ((ten_pow_le_two_pow _).trans (Nat.log2_self_le h))

theorem ten_pow_le_tenths {rank : ℕ} (h : rank ≠ 0) : 10 ^ 16 ≤ tenths rank := by
  have hpow : 10 ^ 16 ≤ 5 ^ oneExponent :=
    calc 10 ^ 16 ≤ 5 ^ 24 := by decide
      _ ≤ 5 ^ oneExponent := Nat.pow_le_pow_right (by decide) (by rw [oneExponent]; omega)
  rw [tenths_eq]
  exact hpow.trans (Nat.le_mul_of_pos_left _ (units_pos h))

theorem seventeen_le_width {rank : ℕ} (h : rank ≠ 0) : 17 ≤ width (tenths rank) :=
  (Nat.pow_lt_pow_iff_right (by decide)).1 ((ten_pow_le_tenths h).trans_lt (lt_width _))

/-! ## Zeros at the end -/

theorem number_stripZeros (fuel : ℕ) (d : Decimal) : (stripZeros fuel d).number = d.number := by
  induction fuel generalizing d with
  | zero => rfl
  | succ fuel ih =>
    rw [stripZeros]
    split
    · next h =>
      rw [ih]
      obtain ⟨m, hm⟩ := Nat.dvd_of_mod_eq_zero h
      rw [number, number, hm, Nat.mul_div_cancel_left _ (by decide), zpow_add_one₀ (by norm_num)]
      push_cast
      ring
    · rfl

theorem digits_stripZeros_le (fuel : ℕ) (d : Decimal) : (stripZeros fuel d).digits ≤ d.digits := by
  induction fuel generalizing d with
  | zero => exact le_rfl
  | succ fuel ih =>
    rw [stripZeros]
    split
    · exact (ih _).trans (Nat.div_le_self _ _)
    · exact le_rfl

/-- A power of ten is one digit. -/
theorem digits_stripZeros_lt {fuel k : ℕ} (hf : 0 < fuel) (hk : 0 < k) {d : Decimal} (h : d.digits ≤ 10 ^ k) :
    (stripZeros fuel d).digits < 10 ^ k := by
  rcases h.lt_or_eq with hlt | heq
  · exact (digits_stripZeros_le fuel d).trans_lt hlt
  · obtain ⟨fuel, rfl⟩ := Nat.exists_eq_succ_of_ne_zero hf.ne'
    obtain ⟨k, rfl⟩ := Nat.exists_eq_succ_of_ne_zero hk.ne'
    rw [stripZeros, if_pos (by rw [heq, pow_succ, Nat.mul_mod_left])]
    refine (digits_stripZeros_le _ _).trans_lt ?_
    rw [heq, pow_succ, Nat.mul_div_cancel _ (by decide)]
    exact (Nat.lt_mul_iff_one_lt_right (Nat.pow_pos (by decide))).2 (by decide)

/-! ## The shortest decimal -/

/-- A decimal that is read as a magnitude with as few digits as can be, and of those the nearest to it. -/
structure IsShortest (d : Decimal) (rank : ℕ) : Prop where
  reads : d.ReadsAs rank
  fewest : ∀ other : Decimal, other.ReadsAs rank → ∀ k, other.digits < 10 ^ k → d.digits < 10 ^ k
  nearest : ∀ other : Decimal, other.ReadsAs rank → (∀ k, d.digits < 10 ^ k → other.digits < 10 ^ k) →
    |d.number - magnitude rank| ≤ |other.number - magnitude rank|

theorem findSome?_range_eq_some {β : Type} {n : ℕ} {f : ℕ → Option β} {b : β}
    (h : (List.range n).findSome? f = some b) : ∃ i < n, f i = some b ∧ ∀ j < i, f j = none := by
  induction n with
  | zero => cases h
  | succ n ih =>
    rw [List.range_succ, List.findSome?_append] at h
    cases hf : (List.range n).findSome? f with
    | some c =>
      rw [hf] at h ih
      obtain ⟨i, hi, hfirst⟩ := ih h
      exact ⟨i, hi.trans n.lt_succ_self, hfirst⟩
    | none =>
      rw [hf] at h
      refine ⟨n, n.lt_succ_self, by simpa using h, fun j hj => ?_⟩
      exact List.findSome?_eq_none_iff.1 hf j (List.mem_range.2 hj)

/-- Seventeen digits are enough, so the first number of digits is found that some decimal is read with. -/
theorem exists_first {rank : Fin rankCount} (hr : rank.val ≠ 0) :
    ∃ k d, 1 ≤ k ∧ k ≤ 17 ∧ shortest rank = stripZeros (width d.digits) d ∧
      onGrid? rank (tenths rank) (width (tenths rank) - k) = some d ∧
      ∀ j, 1 ≤ j → j < k → onGrid? rank (tenths rank) (width (tenths rank) - j) = none := by
  have hwidth := seventeen_le_width hr
  cases hf : (List.range 17).findSome? fun n => onGrid? rank (tenths rank) (width (tenths rank) - (n + 1)) with
  | none =>
    have hlast := List.findSome?_eq_none_iff.1 hf 16 (by decide)
    have hgrid : 10 ^ 16 * 10 ^ (width (tenths rank) - 17) ≤ tenths rank := by
      rw [← pow_add, show 16 + (width (tenths rank) - 17) = width (tenths rank) - 1 by omega]
      exact width_le (tenths_pos hr).ne'
    obtain ⟨near, hn, hread⟩ := exists_isNeighbour_readsAs hgrid
    exact absurd hread (onGrid?_eq_none hlast hn)
  | some d =>
    obtain ⟨i, hi, hsome, hnone⟩ := findSome?_range_eq_some hf
    refine ⟨i + 1, d, by omega, by omega, ?_, hsome, fun j hj hji => ?_⟩
    · rw [shortest]
      simp only [hf, Option.getD_some]
    · have := hnone (j - 1) (by omega)
      rwa [Nat.sub_add_cancel hj] at this

theorem digits_le_of_isNeighbour {rank k : ℕ} (hk : k ≤ width (tenths rank)) {d : Decimal}
    (h : IsNeighbour rank (width (tenths rank) - k) d) : d.digits ≤ 10 ^ k := by
  have hlt : tenths rank / 10 ^ (width (tenths rank) - k) < 10 ^ k := by
    rw [Nat.div_lt_iff_lt_mul (Nat.pow_pos (by decide)), ← pow_add, Nat.add_sub_cancel' hk]
    exact lt_width _
  rcases h with rfl | rfl
  · exact hlt.le
  · exact hlt

/-- The decimal that is written for a positive magnitude is a shortest one. -/
theorem isShortest_shortest {rank : Fin rankCount} (hr : rank.val ≠ 0) : (shortest rank).IsShortest rank := by
  obtain ⟨k, d, hk, hk17, hd, hgrid, hfirst⟩ := exists_first hr
  have hpower := width_le (tenths_pos hr).ne'
  have hwidth := seventeen_le_width hr
  have hnear {j : ℕ} (hj : 1 ≤ j) (hj17 : j ≤ 17) {other : Decimal} (hread : other.ReadsAs rank)
      (hdigits : other.digits < 10 ^ j) :
      ∃ near, IsNeighbour rank (width (tenths rank) - j) near ∧ near.ReadsAs rank ∧
        |near.number - magnitude rank| ≤ |other.number - magnitude rank| := by
    obtain ⟨near, hnear, hbetween⟩ := exists_isNeighbour hj (hj17.trans hwidth) hpower hdigits
    exact ⟨near, hnear, hread.of_mem_uIcc hbetween, Set.abs_sub_left_of_mem_uIcc hbetween⟩
  have hdigits : (shortest rank).digits < 10 ^ k := by
    rw [hd]
    exact digits_stripZeros_lt (width_pos _) hk
      (digits_le_of_isNeighbour (hk17.trans hwidth) (isNeighbour_of_onGrid? hgrid))
  refine ⟨?_, fun other hread j hj => ?_, fun other hread hfew => ?_⟩
  · rw [hd]
    exact (readsAs_of_onGrid? hgrid).of_number_eq (number_stripZeros _ _)
  · by_cases hkj : k ≤ j
    · exact hdigits.trans_le (Nat.pow_le_pow_right (by decide) hkj)
    · have hpos := hread.digits_pos hr
      have hj1 : 1 ≤ j := by
        by_contra h0
        rw [show j = 0 by omega, pow_zero] at hj
        omega
      obtain ⟨near, hn, hnread, -⟩ := hnear hj1 (by omega) hread hj
      exact absurd hnread (onGrid?_eq_none (hfirst j hj1 (by omega)) hn)
  · obtain ⟨near, hn, hnread, hle⟩ := hnear hk hk17 hread (hfew k hdigits)
    rw [hd, number_stripZeros]
    exact (abs_sub_le_of_onGrid? hgrid hn hnread).trans hle

end Readings

end Decimal

end NodeMemory
