import Mathlib.Algebra.Order.Field.Power
import Mathlib.Tactic.Linarith
import Mathlib.Tactic.Positivity
import Mathlib.Tactic.Ring
import NodeMemory.Number.Binary64
/-!
# Magnitudes

A finite magnitude is a number of steps of some power of two (`units_eq`), and 53 bits count the
steps. To round a number of units is to take the exponent at which 53 bits count its steps, and
the nearest whole number of them, the even one of two (`RoundsTo`). That a number is rounded to
one rank only, that it is the nearest, and where the finite ranks end, is said here of numbers;
which rank a quotient is given does not matter yet.
-/

namespace NodeMemory.Binary64

/-! ## Ranks -/

theorem fractionCount_pos : 0 < fractionCount := Nat.two_pow_pos 52

theorem even_fractionCount : Even fractionCount := ⟨Nat.pow 2 51, by decide⟩

/-- A rank is an exponent and steps of it, as long as these are 53 bits or the exponent is the least. The
step after the last is the first of the next exponent. -/
theorem units_eq {exponent steps : Nat} (hs : steps ≤ 2 * fractionCount) (hn : exponent = 0 ∨ fractionCount ≤ steps) :
    units (exponent * fractionCount + steps) = steps * 2 ^ exponent := by
  have hpos := fractionCount_pos
  by_cases hlow : steps < fractionCount
  · obtain rfl : exponent = 0 := hn.resolve_right (by omega)
    rw [units, if_pos (by omega)]
    simp
  · obtain ⟨more, rfl⟩ := Nat.exists_eq_add_of_le (Nat.le_of_not_lt hlow)
    have hrank : exponent * fractionCount + (fractionCount + more) = more + (exponent + 1) * fractionCount := by ring
    rw [hrank, units, if_neg (by rw [Nat.add_mul]; omega), Nat.add_mul_mod_self_right, Nat.add_mul_div_right _ _ hpos,
      Nat.pow_eq]
    rcases Nat.lt_or_eq_of_le (show more ≤ fractionCount by omega) with hm | rfl
    · rw [Nat.mod_eq_of_lt hm, Nat.div_eq_of_lt hm, Nat.zero_add, Nat.add_sub_cancel]
    · rw [Nat.mod_self, Nat.div_self hpos, Nat.add_zero, Nat.add_sub_cancel_left (n := 1), pow_succ]
      ring

theorem exists_steps (rank : Nat) :
    ∃ exponent steps, rank = exponent * fractionCount + steps ∧ steps < 2 * fractionCount ∧
      (exponent = 0 ∨ fractionCount ≤ steps) := by
  by_cases h : rank < fractionCount
  · exact ⟨0, rank, by simp, by omega, .inl rfl⟩
  · have hd := Nat.div_add_mod' rank fractionCount
    have hm := Nat.mod_lt rank fractionCount_pos
    obtain ⟨e, he⟩ : ∃ e, rank / fractionCount = e + 1 :=
      Nat.exists_eq_succ_of_ne_zero (Nat.div_ne_zero_iff.2 ⟨fractionCount_pos.ne', by omega⟩)
    rw [he, Nat.add_mul, Nat.one_mul] at hd
    exact ⟨e, fractionCount + rank % fractionCount, by omega, by omega, .inr (by omega)⟩

/-- A magnitude that is no subnormal one is multiplied by a power of two in the exponent alone. -/
theorem units_scale {rank : ℕ} (h : fractionCount ≤ rank) (k : ℕ) :
    units (rank + k * fractionCount) = 2 ^ k * units rank := by
  obtain ⟨e, n, rfl, hn, hlow⟩ := exists_steps rank
  have hn' : fractionCount ≤ n := by
    rcases hlow with rfl | hlow
    · simpa using h
    · exact hlow
  rw [show e * fractionCount + n + k * fractionCount = (e + k) * fractionCount + n by ring, units_eq hn.le (.inr hn'),
    units_eq hn.le hlow, pow_add]
  ring

/-- Whole numbers of 53 bits, scaled by a power of two, are magnitudes. -/
theorem exists_units_eq {n : ℕ} (hn : n ≤ 2 * fractionCount) (k : ℕ) : ∃ rank, units rank = 2 ^ k * n := by
  induction k with
  | zero => exact ⟨0 * fractionCount + n, by rw [units_eq hn (.inl rfl)]; ring⟩
  | succ k ih =>
    obtain ⟨rank, hrank⟩ := ih
    rw [pow_succ', mul_assoc, ← hrank]
    by_cases h : fractionCount ≤ rank
    · exact ⟨rank + 1 * fractionCount, by rw [units_scale h, pow_one]⟩
    · -- The double of a subnormal magnitude has 53 bits of steps itself.
      refine ⟨0 * fractionCount + 2 * rank, ?_⟩
      rw [units_eq (by omega) (.inl rfl), units, if_pos (by omega)]
      ring

/-! ## Whole numbers -/

/-- A whole number that is nearest to a number, the even one of two. -/
def NearestWhole (x : ℚ) (n : ℕ) : Prop := |x - n| ≤ 1 / 2 ∧ (|x - n| = 1 / 2 → Even n)

theorem one_le_abs_sub {k n : ℕ} (h : k ≠ n) : (1 : ℚ) ≤ |(k : ℚ) - n| := by
  have h : (1 : ℤ) ≤ |(k : ℤ) - n| := Int.one_le_abs (by omega)
  exact_mod_cast h

namespace NearestWhole
variable {x : ℚ} {n k : ℕ}

theorem half_le_abs_sub (h : NearestWhole x n) (hk : k ≠ n) : 1 / 2 ≤ |x - k| := by
  have h1 := one_le_abs_sub hk
  have h2 := abs_sub_le (k : ℚ) x n
  rw [abs_sub_comm (k : ℚ) x] at h2
  linarith [h.1]

theorem abs_sub_le (h : NearestWhole x n) (k : ℕ) : |x - n| ≤ |x - k| := by
  by_cases hk : k = n
  · rw [hk]
  · exact h.1.trans (h.half_le_abs_sub hk)

theorem even_of_tie (h : NearestWhole x n) (hk : k ≠ n) (ht : |x - k| = |x - n|) : Even n :=
  h.2 (le_antisymm h.1 (ht ▸ h.half_le_abs_sub hk))

theorem unique (h : NearestWhole x n) (h' : NearestWhole x k) : n = k := by
  by_contra hne
  have ht : |x - k| = |x - n| := le_antisymm (h'.abs_sub_le n) (h.abs_sub_le k)
  have hn := h.even_of_tie (Ne.symm hne) ht
  have hk := h'.even_of_tie hne ht.symm
  -- Two whole numbers that are as near differ by one, so one of them is odd.
  have hle := abs_le.1 h.1
  have hle' := abs_le.1 h'.1
  have hnk : (n : ℚ) ≤ k + 1 := by linarith
  have hkn : (k : ℚ) ≤ n + 1 := by linarith
  have hnk : n ≤ k + 1 := by exact_mod_cast hnk
  have hkn : k ≤ n + 1 := by exact_mod_cast hkn
  obtain ⟨a, ha⟩ := hn
  obtain ⟨b, hb⟩ := hk
  omega

theorem of_natCast (n : ℕ) : NearestWhole n n := by
  constructor <;> norm_num

/-- Where every smaller number lies below a whole one, so does what is nearest to it. -/
theorem natCast_le (h : NearestWhole x n) (hx : (k : ℚ) ≤ x) : k ≤ n := by
  by_contra hlt
  have hle := abs_le.1 h.1
  have hn : (n : ℚ) + 1 ≤ k := by exact_mod_cast Nat.lt_of_not_le hlt
  linarith

theorem le_natCast (h : NearestWhole x n) (hx : x ≤ k) : n ≤ k := by
  by_contra hlt
  have hle := abs_le.1 h.1
  have hn : (k : ℚ) + 1 ≤ n := by exact_mod_cast Nat.lt_of_not_le hlt
  linarith

end NearestWhole

theorem nearestWhole_roundQuotient (num : ℕ) {den : ℕ} (hden : den ≠ 0) :
    NearestWhole ((num : ℚ) / den) (roundQuotient num den) := by
  have hpos : (0 : ℚ) < den := by exact_mod_cast Nat.pos_of_ne_zero hden
  have hdiv : (num : ℚ) / den = (num / den : ℕ) + (num % den : ℕ) / den := by
    rw [eq_comm, ← eq_sub_iff_add_eq', div_eq_iff hpos.ne', sub_mul, div_mul_cancel₀ _ hpos.ne']
    have := Nat.div_add_mod' num den
    have : (num : ℚ) = (num / den : ℕ) * den + (num % den : ℕ) := by exact_mod_cast this.symm
    linarith
  have hrest : ((num % den : ℕ) : ℚ) / den < 1 := by
    rw [div_lt_one hpos]
    exact_mod_cast Nat.mod_lt num (Nat.pos_of_ne_zero hden)
  have hrest0 : (0 : ℚ) ≤ ((num % den : ℕ) : ℚ) / den := by positivity
  have hlow : 2 * (num % den) < den ↔ ((num % den : ℕ) : ℚ) / den < 1 / 2 := by
    rw [div_lt_iff₀ hpos, ← @Nat.cast_lt ℚ]
    push_cast
    constructor <;> intro h <;> linarith
  have hhigh : den < 2 * (num % den) ↔ 1 / 2 < ((num % den : ℕ) : ℚ) / den := by
    rw [lt_div_iff₀ hpos, ← @Nat.cast_lt ℚ]
    push_cast
    constructor <;> intro h <;> linarith
  simp only [roundQuotient, hlow, hhigh, hdiv]
  generalize ((num % den : ℕ) : ℚ) / den = rest at *
  generalize num / den = q
  unfold NearestWhole
  split_ifs with h1 h2
  · rw [add_sub_cancel_left, abs_of_nonneg hrest0]
    exact ⟨h1.le, fun h => absurd h h1.ne⟩
  · have : (q : ℚ) + rest - (q + 1 : ℕ) = -(1 - rest) := by push_cast; ring
    rw [this, abs_neg, abs_of_nonneg (by linarith)]
    exact ⟨by linarith, fun h => absurd h (by linarith)⟩
  · have hhalf : rest = 1 / 2 := le_antisymm (not_lt.1 h2) (not_lt.1 h1)
    rcases Nat.mod_two_eq_zero_or_one q with hq | hq
    · rw [hq, Nat.add_zero, add_sub_cancel_left, hhalf]
      exact ⟨by norm_num, fun _ => Nat.even_iff.2 hq⟩
    · have : (q : ℚ) + rest - (q + q % 2 : ℕ) = -(1 / 2) := by rw [hq, hhalf]; push_cast; ring
      rw [this]
      exact ⟨by norm_num, fun _ => Nat.even_iff.2 (by omega)⟩

/-! ## Roundings -/

/-- The exponent at which 53 bits count the steps of a number of units, or the least exponent. -/
def InBinade (v : ℚ) (exponent : ℕ) : Prop :=
  v < 2 * fractionCount * 2 ^ exponent ∧ (exponent = 0 ∨ fractionCount * 2 ^ exponent ≤ v)

/-- A number of units is rounded to a rank: its steps are rounded to the nearest whole number. -/
def RoundsTo (v : ℚ) (rank : ℕ) : Prop :=
  ∃ exponent steps, InBinade v exponent ∧ NearestWhole (v / 2 ^ exponent) steps ∧ rank = exponent * fractionCount + steps

theorem InBinade.mono {v w : ℚ} {a b : ℕ} (ha : InBinade v a) (hb : InBinade w b) (h : v ≤ w) : a ≤ b := by
  have hpos : (0 : ℚ) < fractionCount := by exact_mod_cast fractionCount_pos
  rcases ha.2 with rfl | ha
  · exact Nat.zero_le _
  · by_contra hlt
    have hpow : (2 : ℚ) ^ (b + 1) ≤ 2 ^ a := pow_le_pow_right₀ (by norm_num) (by omega)
    have := mul_le_mul_of_nonneg_left hpow hpos.le
    rw [pow_succ] at this
    linarith [hb.1]

theorem InBinade.unique {v : ℚ} {a b : ℕ} (ha : InBinade v a) (hb : InBinade v b) : a = b :=
  Nat.le_antisymm (ha.mono hb le_rfl) (hb.mono ha le_rfl)

/-- A number is rounded to one rank. -/
theorem RoundsTo.unique {v : ℚ} {a b : ℕ} (ha : RoundsTo v a) (hb : RoundsTo v b) : a = b := by
  obtain ⟨e, n, he, hn, rfl⟩ := ha
  obtain ⟨e', n', he', hn', rfl⟩ := hb
  obtain rfl := he.unique he'
  rw [hn.unique hn']

theorem InBinade.scale {v : ℚ} {exponent : ℕ} (h : InBinade v exponent) (hv : fractionCount ≤ v) (k : ℕ) :
    InBinade (2 ^ k * v) (exponent + k) := by
  have hk : (0 : ℚ) < 2 ^ k := by positivity
  constructor
  · rw [pow_add]
    have := mul_lt_mul_of_pos_left h.1 hk
    linarith
  · have hlow : (fractionCount : ℚ) * 2 ^ exponent ≤ v := by
      rcases h.2 with rfl | h
      · simpa using hv
      · exact h
    have := mul_le_mul_of_nonneg_left hlow hk.le
    rw [pow_add]
    exact .inr (by linarith)

/-- Scaling by a power of two moves a rounding to another exponent and changes nothing else. -/
theorem RoundsTo.scale {v : ℚ} {rank : ℕ} (h : RoundsTo v rank) (hv : fractionCount ≤ v) (k : ℕ) :
    RoundsTo (2 ^ k * v) (rank + k * fractionCount) := by
  obtain ⟨e, n, he, hn, rfl⟩ := h
  refine ⟨e + k, n, he.scale hv k, ?_, by ring⟩
  rwa [pow_add, mul_comm ((2 : ℚ) ^ e), mul_div_mul_left _ _ (by positivity)]

/-- The magnitude of a rank is rounded to that rank. -/
theorem roundsTo_units (rank : ℕ) : RoundsTo (units rank) rank := by
  obtain ⟨e, n, rfl, hn, hlow⟩ := exists_steps rank
  have hpow : (0 : ℚ) < 2 ^ e := by positivity
  have hlt : (n : ℚ) < 2 * fractionCount := by exact_mod_cast hn
  refine ⟨e, n, ⟨?_, ?_⟩, ?_, rfl⟩
  · rw [units_eq hn.le hlow]
    push_cast
    exact mul_lt_mul_of_pos_right hlt hpow
  · refine hlow.imp_right fun hlow => ?_
    rw [units_eq hn.le (.inr hlow)]
    have hlow : (fractionCount : ℚ) ≤ n := by exact_mod_cast hlow
    push_cast
    exact mul_le_mul_of_nonneg_right hlow hpow.le
  · rw [units_eq hn.le hlow]
    push_cast
    rw [mul_div_cancel_right₀ _ hpow.ne']
    exact .of_natCast n

theorem InBinade.steps_le {v : ℚ} {exponent steps : ℕ} (hv : InBinade v exponent)
    (hn : NearestWhole (v / 2 ^ exponent) steps) :
    steps ≤ 2 * fractionCount ∧ (exponent = 0 ∨ fractionCount ≤ steps) := by
  have hpow : (0 : ℚ) < 2 ^ exponent := by positivity
  constructor
  · refine hn.le_natCast ?_
    rw [div_le_iff₀ hpow]
    push_cast
    exact hv.1.le
  · refine hv.2.imp_right fun hlow => hn.natCast_le ?_
    rwa [le_div_iff₀ hpow]

theorem RoundsTo.fractionCount_le {v : ℚ} {rank : ℕ} (h : RoundsTo v rank) (hv : fractionCount ≤ v) :
    fractionCount ≤ rank := by
  obtain ⟨e, n, he, hn, rfl⟩ := h
  rcases (he.steps_le hn).2 with rfl | hlow
  · have := hn.natCast_le (k := fractionCount) (by simpa using hv)
    omega
  · exact hlow.trans (Nat.le_add_left _ _)

/-! ## The nearest magnitude -/

/-- Seen from an exponent, a magnitude is a whole number of steps, or it lies below the magnitudes of that
exponent. -/
theorem units_steps (rank exponent : ℕ) :
    (∃ steps, units rank = steps * 2 ^ exponent) ∨ exponent ≠ 0 ∧ units rank < fractionCount * 2 ^ exponent := by
  obtain ⟨e, n, rfl, hn, hlow⟩ := exists_steps rank
  rw [units_eq hn.le hlow]
  by_cases he : exponent ≤ e
  · exact .inl ⟨n * 2 ^ (e - exponent), by rw [mul_assoc, ← pow_add, Nat.sub_add_cancel he]⟩
  · refine .inr ⟨by omega, ?_⟩
    calc n * 2 ^ e < 2 * fractionCount * 2 ^ e := Nat.mul_lt_mul_of_pos_right hn (Nat.two_pow_pos e)
      _ = fractionCount * 2 ^ (e + 1) := by ring
      _ ≤ fractionCount * 2 ^ exponent :=
        Nat.mul_le_mul_left _ (Nat.pow_le_pow_right (by omega) (by omega))

/-- A number of units is rounded to the nearest magnitude, and to an even rank if another is as near. -/
theorem RoundsTo.nearest {v : ℚ} {rank : ℕ} (h : RoundsTo v rank) (other : ℕ) :
    |v - units rank| ≤ |v - units other| ∧
      (units other ≠ units rank → |v - units other| = |v - units rank| → Even rank) := by
  obtain ⟨e, n, he, hn, rfl⟩ := h
  obtain ⟨hle, hlow⟩ := he.steps_le hn
  have hpow : (0 : ℚ) < 2 ^ e := by positivity
  -- Distances are counted in steps.
  have hsteps (k : ℕ) : |v - (k * 2 ^ e : ℕ)| = |v / 2 ^ e - k| * 2 ^ e := by
    have : v - (k * 2 ^ e : ℕ) = (v / 2 ^ e - k) * 2 ^ e := by
      push_cast
      rw [sub_mul, div_mul_cancel₀ _ hpow.ne']
    rw [this, abs_mul, abs_of_pos hpow]
  have heven : Even n → Even (e * fractionCount + n) := fun h => (even_fractionCount.mul_left e).add h
  rw [units_eq hle hlow, hsteps n]
  rcases units_steps other e with ⟨k, hk⟩ | ⟨hne, hlt⟩
  · rw [hk, hsteps k]
    refine ⟨mul_le_mul_of_nonneg_right (hn.abs_sub_le k) hpow.le, fun hother htie => heven ?_⟩
    exact hn.even_of_tie (fun h => hother (by rw [h])) (mul_right_cancel₀ hpow.ne' htie)
  · -- The other lies below the first magnitude of the exponent, which is nearer.
    have hv := he.2.resolve_left hne
    have hother : (units other : ℚ) < fractionCount * 2 ^ e := by exact_mod_cast hlt
    have hfirst : |v - (fractionCount * 2 ^ e : ℕ)| < |v - units other| := by
      push_cast
      rw [abs_of_nonneg (by linarith), abs_of_nonneg (by linarith)]
      linarith
    have hnear : |v / 2 ^ e - n| * 2 ^ e < |v - units other| := by
      refine lt_of_le_of_lt ?_ hfirst
      rw [hsteps]
      exact mul_le_mul_of_nonneg_right (hn.abs_sub_le _) hpow.le
    exact ⟨hnear.le, fun _ htie => absurd htie hnear.ne'⟩

/-! ## Overflow -/

/-- The exponent of the greatest finite magnitudes. -/
def lastExponent : ℕ := 2045

/-- Half way from the greatest finite magnitude to the next power of two, in units. -/
def overflowUnits : ℚ := (2 * fractionCount - 1 / 2) * 2 ^ lastExponent

/-- What is nearest to a finite magnitude lies below the half way to the next power of two; there the tie goes
to the even rank, which is beyond the finite ones. -/
theorem RoundsTo.lt_rankCount_iff {v : ℚ} {rank : ℕ} (h : RoundsTo v rank) : rank < rankCount ↔ v < overflowUnits := by
  obtain ⟨e, n, he, hn, rfl⟩ := h
  obtain ⟨hle, hlow⟩ := he.steps_le hn
  have hcount : rankCount = (lastExponent + 2) * fractionCount := rfl
  have hpos := fractionCount_pos
  have hone : (1 : ℚ) ≤ fractionCount := by exact_mod_cast hpos
  have htop : (0 : ℚ) < 2 ^ lastExponent := by positivity
  rw [hcount, add_mul, overflowUnits]
  rcases Nat.lt_trichotomy e lastExponent with hlt | rfl | hgt
  · have hpow : (2 : ℚ) ^ (e + 1) ≤ 2 ^ lastExponent := pow_le_pow_right₀ (by norm_num) hlt
    have hstep : (0 : ℚ) < 2 ^ e := by positivity
    rw [pow_succ] at hpow
    refine iff_of_true ?_ (he.1.trans_le ?_)
    · have := Nat.mul_le_mul_right fractionCount hlt
      rw [Nat.succ_mul] at this
      omega
    · calc (2 * fractionCount : ℚ) * 2 ^ e ≤ (2 * fractionCount - 1 / 2) * (2 ^ e * 2) := by
            have := mul_le_mul_of_nonneg_right hone hstep.le
            linarith
        _ ≤ _ := mul_le_mul_of_nonneg_left hpow (by linarith)
  · rw [← div_lt_iff₀ htop]
    have hn' := abs_le.1 hn.1
    have hrank : lastExponent * fractionCount + n < lastExponent * fractionCount + 2 * fractionCount ↔
        n + 1 ≤ 2 * fractionCount := by omega
    rw [hrank]
    constructor
    · intro hlt
      have hlt' : (n : ℚ) + 1 ≤ 2 * fractionCount := by exact_mod_cast hlt
      refine lt_of_le_of_ne (by linarith) fun heq => ?_
      -- At the half way the last finite rank is not even.
      have hlast : (n : ℚ) + 1 = 2 * fractionCount := by linarith
      have hlast : n + 1 = 2 * fractionCount := by exact_mod_cast hlast
      obtain ⟨m, hm⟩ := hn.2 (by rw [abs_of_nonneg] <;> linarith)
      omega
    · intro hlt
      have hlt' : (n : ℚ) < 2 * fractionCount := by linarith
      exact_mod_cast hlt'
  · have hpow : (2 : ℚ) ^ (lastExponent + 1) ≤ 2 ^ e := pow_le_pow_right₀ (by norm_num) hgt
    rw [pow_succ] at hpow
    refine iff_of_false ?_ (not_lt.2 (le_trans ?_ (he.2.resolve_left (by omega))))
    · have := Nat.mul_le_mul_right fractionCount hgt
      have := hlow.resolve_left (by omega)
      rw [Nat.succ_mul] at *
      omega
    · calc (2 * fractionCount - 1 / 2 : ℚ) * 2 ^ lastExponent ≤ fractionCount * (2 ^ lastExponent * 2) := by linarith
        _ ≤ _ := mul_le_mul_of_nonneg_left hpow (by linarith)

end NodeMemory.Binary64
