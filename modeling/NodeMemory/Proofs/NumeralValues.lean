import NodeMemory.Proofs.ShortestDecimals
import NodeMemory.Proofs.TokenNumbers
/-!
# The values of written numbers

A layout moves the point and changes no number: the digits of the shortest decimal stand for the
same number with the point among them, before them or behind them (`denotes_layout`). So the text
of a finite value is read back as it, and no other text that is has fewer digits, or as few and
lies nearer (`isShortestToken_render`).
-/

namespace NodeMemory

open Binary64 (sign magnitude)
open JsonText (IsDigits isDigits_repr isDigit_of_mem_zeros)
open Value (placesOf fractionOf MantissaIs ExponentIs Denotes)

/-! ## Digits -/

namespace Value

theorem placesOf_eq (digits : List Char) : placesOf digits = Nat.ofDigitChars 10 digits 0 := by
  rw [← natOf_zero, Nat.ofDigitChars_eq_foldl]
  rfl

@[simp]
theorem placesOf_repr (n : ℕ) : placesOf (Nat.repr n).toList = n := by
  rw [placesOf_eq, Nat.repr_eq_ofList_toDigits, String.toList_ofList, Nat.ofDigitChars_ten_toDigits]

theorem placesOf_append (digits more : List Char) :
    placesOf (digits ++ more) = placesOf digits * 10 ^ more.length + placesOf more := by
  rw [← natOf_zero, natOf, List.foldl_append]
  exact (natOf_eq _ more).trans (by rw [← natOf_zero digits, natOf])

@[simp]
theorem placesOf_zeros (n : ℕ) : placesOf (List.replicate n '0') = 0 := by
  rw [placesOf_eq, Nat.ofDigitChars_replicate_zero, Nat.mul_zero]

theorem placesOf_zero : placesOf ['0'] = 0 := placesOf_zeros 1

theorem isDigits_zero : IsDigits ['0'] := ⟨by simp, by simp⟩

/-- A point among digits takes as many places from their number as there are digits behind it. -/
theorem mantissaIs_point {before after : List Char} (hb : IsDigits before) (ha : ∀ c ∈ after, c.isDigit) :
    MantissaIs (before ++ '.' :: after) (placesOf (before ++ after) * 10 ^ (-after.length : ℤ)) := by
  have hpow : (10 : ℚ) ^ after.length ≠ 0 := by positivity
  have hnumber : (placesOf (before ++ after) : ℚ) * 10 ^ (-after.length : ℤ) = placesOf before + fractionOf after := by
    rw [placesOf_append, fractionOf, zpow_neg, zpow_natCast, ← div_eq_mul_inv]
    push_cast
    rw [add_div, mul_div_cancel_right₀ _ hpow]
  rw [hnumber]
  exact .point hb ha

end Value

/-! ## Layouts -/

namespace Numeral
open Value

variable {digits : List Char} (hd : IsDigits digits)
include hd

theorem mantissaIs_positional (whole : ℤ) :
    MantissaIs (positional digits whole) (placesOf digits * 10 ^ (whole - digits.length)) := by
  unfold positional
  dsimp only
  split
  · next hw =>
    have hafter : ∀ c ∈ List.replicate (-whole).toNat '0' ++ digits, c.isDigit := fun c hc =>
      (List.mem_append.1 hc).elim isDigit_of_mem_zeros (hd.2 c)
    have h := mantissaIs_point isDigits_zero hafter
    rw [placesOf_append, placesOf_zero, placesOf_append, placesOf_zeros, Nat.zero_mul, Nat.zero_mul, Nat.zero_add,
      Nat.zero_add, List.length_append, List.length_replicate] at h
    rwa [show whole - digits.length = -((-whole).toNat + digits.length : ℕ) by omega]
  · next hw =>
    have hbefore : IsDigits (digits.take whole.toNat ++ List.replicate (whole.toNat - digits.length) '0') := by
      refine IsDigits.append_all ⟨?_, fun c hc => hd.2 c (List.mem_of_mem_take hc)⟩ fun _ => isDigit_of_mem_zeros
      rw [Ne, List.take_eq_nil_iff, not_or]
      exact ⟨by omega, hd.1⟩
    by_cases hl : whole.toNat < digits.length
    · have hdrop : (digits.drop whole.toNat).isEmpty = false := by simpa using hl
      have hafter : ∀ c ∈ digits.drop whole.toNat, c.isDigit := fun c hc => hd.2 c (List.mem_of_mem_drop hc)
      have h := mantissaIs_point hbefore hafter
      rw [Nat.sub_eq_zero_of_le hl.le, List.replicate_zero, List.append_nil, List.take_append_drop,
        List.length_drop] at h
      rw [Nat.sub_eq_zero_of_le hl.le, List.replicate_zero, List.append_nil, hdrop]
      rwa [show whole - digits.length = -(digits.length - whole.toNat : ℕ) by omega]
    · have hdrop : digits.drop whole.toNat = [] := List.drop_eq_nil_of_le (Nat.not_lt.1 hl)
      have h := mantissaIs_point hbefore isDigits_zero.2
      rw [List.take_of_length_le (Nat.not_lt.1 hl)] at h ⊢
      rw [placesOf_append, placesOf_append, placesOf_zeros, placesOf_zero, Nat.add_zero, Nat.add_zero,
        List.length_replicate, List.length_singleton] at h
      rw [hdrop]
      have hnumber : ((placesOf digits * 10 ^ (whole.toNat - digits.length) * 10 ^ 1 : ℕ) : ℚ) * 10 ^ (-(1 : ℕ) : ℤ) =
          placesOf digits * 10 ^ (whole - digits.length) := by
        rw [show whole - digits.length = (whole.toNat - digits.length : ℕ) by omega, zpow_natCast]
        push_cast
        exact mul_inv_cancel_right₀ (by norm_num) _
      exact hnumber ▸ h

theorem mantissaIs_scientific (e : ℤ) :
    ∃ mantissa m, MantissaIs mantissa m ∧ scientific digits e = mantissa ++ 'e' :: exponentText e ∧
      m = placesOf digits * 10 ^ (1 - digits.length : ℤ) := by
  obtain ⟨c, cs, rfl⟩ := List.exists_cons_of_ne_nil hd.1
  cases cs with
  | nil => exact ⟨[c], _, .whole hd, by simp [scientific], by simp⟩
  | cons d ds =>
    have hbefore : IsDigits [c] := ⟨List.cons_ne_nil c [], by simpa using hd.2 c (by simp)⟩
    have h := mantissaIs_point hbefore fun x hx => hd.2 x (List.mem_cons_of_mem c hx)
    exact ⟨_, _, h, by simp [scientific], by simp⟩

omit hd in
theorem exponentIs_exponentText (e : ℤ) : ExponentIs ('e' :: exponentText e) e := by
  have hd := isDigits_repr e.natAbs
  have hplaces := placesOf_repr e.natAbs
  unfold exponentText
  generalize (Nat.repr e.natAbs).toList = digits at hd hplaces
  generalize hpadded : (if digits.length < 2 then '0' :: digits else digits) = padded
  have hp : IsDigits padded ∧ placesOf padded = e.natAbs := by
    rw [← hpadded, ← hplaces]
    split
    · exact ⟨⟨by simp, by simpa using hd.2⟩, by rw [← List.singleton_append, placesOf_append, placesOf_zero]; simp⟩
    · exact ⟨hd, rfl⟩
  simp only [hpadded]
  split
  · next hneg =>
    have h : ExponentIs ('e' :: (['-'] ++ padded)) _ := .digits (by simp) (by simp) hp.1
    rwa [hp.2, show signOf ['-'] * e.natAbs = e by rw [signOf, if_pos rfl]; omega] at h
  · next hneg =>
    have h : ExponentIs ('e' :: (['+'] ++ padded)) _ := .digits (by simp) (by simp) hp.1
    rwa [hp.2, show signOf ['+'] * e.natAbs = e by rw [signOf, if_neg (by decide)]; omega] at h

omit hd in
/-- A layout stands for the number of its decimal. -/
theorem layout_eq (scientificFrom : ℤ) (d : Decimal) :
    ∃ mantissa exponent m n, MantissaIs mantissa m ∧ ExponentIs exponent n ∧
      layout scientificFrom d = mantissa ++ exponent ∧ m * 10 ^ n = d.number := by
  have hd := isDigits_repr d.digits
  unfold layout
  dsimp only
  split
  · have h := mantissaIs_positional hd ((Nat.repr d.digits).toList.length + d.exponent)
    rw [placesOf_repr, add_sub_cancel_left] at h
    exact ⟨_, [], _, 0, h, .nothing, by rw [List.append_nil], by rw [zpow_zero, mul_one]; rfl⟩
  · obtain ⟨mantissa, m, hm, htext, rfl⟩ :=
      mantissaIs_scientific hd ((Nat.repr d.digits).toList.length + d.exponent - 1)
    refine ⟨mantissa, _, _, _, hm, exponentIs_exponentText _, htext, ?_⟩
    rw [placesOf_repr, mul_assoc, ← zpow_add₀ (by norm_num), Decimal.number]
    congr 2
    ring

end Numeral

/-! ## The texts of finite values -/

/-- The number that is written for a magnitude. -/
def writtenNumber (rank : ℕ) : ℚ := if rank = 0 then 0 else (Decimal.shortest rank).number

theorem signText_mem (negative : Bool) : signText negative ∈ [[], ['+'], ['-']] := by
  cases negative <;> simp [signText]

theorem signText_eq_minus (negative : Bool) : decide (signText negative = ['-']) = negative := by
  cases negative <;> rfl

namespace Numeral
open Value

theorem render_eq (style : Numeral) (negative : Bool) (rank : Fin rankCount) :
    ∃ mantissa exponent m n, MantissaIs mantissa m ∧ ExponentIs exponent n ∧
      (style.render (.finite negative rank)).toList = signText negative ++ (mantissa ++ exponent) ∧
      m * 10 ^ n = writtenNumber rank := by
  rw [toList_render, writtenNumber]
  by_cases h0 : rank.val = 0
  · rw [if_pos h0, if_pos h0]
    exact ⟨_, [], _, 0, .point isDigits_zero isDigits_zero.2, .nothing, rfl, by simp [fractionOf, placesOf_zero]⟩
  · rw [if_neg h0, if_neg h0]
    obtain ⟨mantissa, exponent, m, n, hm, he, hlayout, hnumber⟩ :=
      layout_eq (if negative then negativeScientificFrom else style.scientificFrom) (Decimal.shortest rank)
    exact ⟨mantissa, exponent, m, n, hm, he, by rw [hlayout], hnumber⟩

theorem denotes_render (style : Numeral) (negative : Bool) (rank : Fin rankCount) :
    Denotes (style.render (.finite negative rank)) (sign negative * writtenNumber rank) := by
  obtain ⟨mantissa, exponent, m, n, hm, he, ht, hnumber⟩ := render_eq style negative rank
  have h := Denotes.decimal (signText_mem negative) hm he ht
  rwa [cast_signOf, signText_eq_minus, hnumber] at h

end Numeral

theorem Decimal.readsAs_of_writtenNumber {rank : Fin rankCount} {d : Decimal} (h : d.number = writtenNumber rank) :
    d.ReadsAs rank := by
  rw [writtenNumber] at h
  split at h
  · next h0 =>
    have hzero := Binary64.roundsTo_units 0
    rw [Binary64.units_zero, Nat.cast_zero, ← zero_mul (Binary64.one : ℚ), ← h] at hzero
    rwa [Decimal.readsAs_iff, h0]
  · next h0 => exact (Decimal.isShortest_shortest h0).reads.of_number_eq h

/-! ## Shortest texts -/

/-- A token is read as a value, whatever table it stands in. -/
def IsReadAs (token : String) (x : Binary64) : Prop := ∀ table, Value.read table token = .ok x

/-- A number that so many significant digits write. -/
def HasDigits (q : ℚ) (k : ℕ) : Prop := ∃ d : Decimal, |q| = d.number ∧ d.digits < 10 ^ k

/-- The token is a JSON number that is read as the value. Among all tokens that are it has the fewest significant
digits, and of those with as few it stands for the number that is nearest to the value. -/
structure IsShortestToken (token : String) (x : Binary64) : Prop where
  isNumber : JsonText.IsNumber token.toList
  reads : IsReadAs token x
  fewest : ∀ {other : String} {p q : ℚ}, Denotes token p → Denotes other q → IsReadAs other x →
    ∀ k, HasDigits q k → HasDigits p k
  nearest : ∀ {other : String} {p q v : ℚ}, x.number? = some v → Denotes token p → Denotes other q →
    IsReadAs other x → (∀ k, HasDigits p k → HasDigits q k) → |p - v| ≤ |q - v|

theorem isReadAs_render (style : Numeral) (negative : Bool) (rank : Fin rankCount) :
    IsReadAs (style.render (.finite negative rank)) (.finite negative rank) := by
  intro table
  obtain ⟨mantissa, exponent, m, n, hm, he, ht, hnumber⟩ := style.render_eq negative rank
  obtain ⟨digits, places, hshape, hx⟩ := Value.shape?_of_mantissaIs (signText_mem negative) hm he ht
  have hread := Decimal.readsAs_of_writtenNumber (d := ⟨digits, places⟩) (hx.trans hnumber)
  rw [signText_eq_minus] at hshape
  simp only [Value.read, hshape]
  rw [Decimal.ofDecimal_eq_finite_iff.2 ⟨rfl, hread⟩]

/-- A token that is read as a finite value stands for a decimal that is read as its magnitude, with its sign. -/
theorem exists_readsAs {token : String} {q : ℚ} {negative : Bool} {rank : Fin rankCount} (hq : Denotes token q)
    (h : IsReadAs token (.finite negative rank)) :
    ∃ d : Decimal, q = sign negative * d.number ∧ d.ReadsAs rank := by
  obtain ⟨s, digits, places, hshape, hnumber⟩ := Value.shape?_of_denotes hq
  have h := h ""
  simp only [Value.read, hshape] at h
  have hd : (⟨digits, places⟩ : Decimal).ReadsAs rank ∧ s = negative :=
    (Decimal.ofDecimal_eq_finite_iff.1 (Except.ok.inj h)).symm
  exact ⟨⟨digits, places⟩, hd.2 ▸ hnumber, hd.1⟩

theorem hasDigits_sign_mul {negative : Bool} {d : Decimal} {k : ℕ} :
    HasDigits (sign negative * d.number) k ↔ ∃ e : Decimal, d.number = e.number ∧ e.digits < 10 ^ k := by
  rw [HasDigits, Binary64.abs_sign_mul negative d.number_nonneg]

theorem hasDigits_zero (k : ℕ) : HasDigits 0 k := ⟨⟨0, 0⟩, by simp [Decimal.number], Nat.pow_pos (by decide)⟩

/-- The text of a finite value is a shortest one that is read back as the value. -/
theorem isShortestToken_render (style : Numeral) (negative : Bool) (rank : Fin rankCount) :
    IsShortestToken (style.render (.finite negative rank)) (.finite negative rank) := by
  have hdenotes := style.denotes_render negative rank
  have hnumber := style.isNumber_render negative rank
  have hread := isReadAs_render style negative rank
  by_cases h0 : rank.val = 0
  · rw [writtenNumber, if_pos h0, mul_zero] at hdenotes
    refine ⟨hnumber, hread, fun hp _ _ k _ => ?_, fun hv hp _ _ _ => ?_⟩
    · rw [hp.unique hdenotes]
      exact hasDigits_zero k
    · rw [Binary64.number?, h0, Binary64.magnitude_zero, mul_zero] at hv
      rw [hp.unique hdenotes, ← Option.some.inj hv, sub_zero, abs_zero]
      exact abs_nonneg _
  · rw [writtenNumber, if_neg h0] at hdenotes
    have hshortest := Decimal.isShortest_shortest h0
    refine ⟨hnumber, hread, fun hp hq hother k hk => ?_, fun hv hp hq hother hfew => ?_⟩
    · rw [hp.unique hdenotes]
      obtain ⟨d, rfl, hd⟩ := exists_readsAs hq hother
      obtain ⟨e, he, hek⟩ := hasDigits_sign_mul.1 hk
      exact hasDigits_sign_mul.2 ⟨_, rfl, hshortest.fewest e (hd.of_number_eq he.symm) k hek⟩
    · rw [hp.unique hdenotes] at hfew ⊢
      obtain ⟨d, rfl, hd⟩ := exists_readsAs hq hother
      -- The digits of the shortest decimal are the first number of digits that is enough for it.
      have hwidth := hfew _ (hasDigits_sign_mul.2 ⟨_, rfl, Decimal.lt_width _⟩)
      obtain ⟨e, he, hek⟩ := hasDigits_sign_mul.1 hwidth
      have hnearest := hshortest.nearest e (hd.of_number_eq he.symm) fun k hk => by
        have hlow := Decimal.width_le (Decimal.digits_shortest h0).ne'
        have hle := (Nat.pow_lt_pow_iff_right (by decide)).1 (hlow.trans_lt hk)
        exact hek.trans_le (Nat.pow_le_pow_right (by decide) (by omega))
      rw [← Option.some.inj hv, Binary64.abs_sign_mul_sub, Binary64.abs_sign_mul_sub, he]
      exact hnearest

end NodeMemory
