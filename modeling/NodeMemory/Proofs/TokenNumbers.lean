import Mathlib.Data.Nat.Digits.Defs
import Mathlib.Tactic.FieldSimp
import NodeMemory.Proofs.ScaledValues
import NodeMemory.Proofs.ValueGrammar
/-!
# The numbers of value tokens

Which number a decimal token stands for, said along the grammar of tokens (`Denotes`): its digits
are decimal places, those behind the point are of the fraction, the exponent moves the point, and
the sign is that of the whole. The reader counts all digits as one number and the point in the
exponent; that is the same number (`shape?_of_denotes`), so the value that is read is one rounding
of it (`exists_read_of_denotes`).
-/

namespace NodeMemory.Value

open Binary64 (sign)
open JsonText (IsDigits IsExponent)

/-! ## Numbers of texts -/

/-- The natural number whose decimal places are these digits. -/
def placesOf (digits : List Char) : ℕ := Nat.ofDigits 10 (digits.reverse.map digitVal)

/-- The part of one that digits behind a point stand for. -/
def fractionOf (digits : List Char) : ℚ := placesOf digits / 10 ^ digits.length

def signOf (text : List Char) : ℤ := if text = ['-'] then -1 else 1

/-- The number of a decimal without sign and exponent. -/
inductive MantissaIs : List Char → ℚ → Prop
  | whole {whole : List Char} : IsDigits whole → MantissaIs whole (placesOf whole)
  | point {whole fraction : List Char} : IsDigits whole → (∀ c ∈ fraction, c.isDigit) →
      MantissaIs (whole ++ '.' :: fraction) (placesOf whole + fractionOf fraction)
  | fraction {fraction : List Char} : IsDigits fraction → MantissaIs ('.' :: fraction) (fractionOf fraction)

inductive ExponentIs : List Char → ℤ → Prop
  | nothing : ExponentIs [] 0
  | digits {e : Char} {sign digits : List Char} : e ∈ ['e', 'E'] → sign ∈ [[], ['+'], ['-']] → IsDigits digits →
      ExponentIs (e :: (sign ++ digits)) (signOf sign * placesOf digits)

/-- A decimal token stands for a number. -/
inductive Denotes (token : String) : ℚ → Prop
  | decimal {sign mantissa exponent : List Char} {m : ℚ} {n : ℤ} : sign ∈ [[], ['+'], ['-']] →
      MantissaIs mantissa m → ExponentIs exponent n → token.toList = sign ++ (mantissa ++ exponent) →
      Denotes token (signOf sign * (m * 10 ^ n))

theorem MantissaIs.isMantissa {cs : List Char} {m : ℚ} (h : MantissaIs cs m) : IsMantissa cs := by
  cases h with
  | whole hw => exact .whole hw
  | point hw hf => exact .point hw hf
  | fraction hf => exact .fraction hf

theorem ExponentIs.isExponent {cs : List Char} {n : ℤ} (h : ExponentIs cs n) : IsExponent cs := by
  cases h with
  | nothing => exact .inl rfl
  | digits he hs hd => exact .inr ⟨_, _, _, he, hs, hd, rfl⟩

/-! ## What the reader counts -/

theorem natOf_eq (read : ℕ) (digits : List Char) : natOf read digits = read * 10 ^ digits.length + placesOf digits := by
  induction digits using List.reverseRecOn with
  | nil => simp [natOf, placesOf]
  | append_singleton digits c ih =>
    rw [natOf] at ih
    rw [natOf, List.foldl_concat, ih, placesOf, placesOf, List.reverse_concat, List.map_cons, Nat.ofDigits_cons,
      List.length_append, List.length_singleton, pow_succ]
    ring

theorem natOf_zero (digits : List Char) : natOf 0 digits = placesOf digits := by
  rw [natOf_eq, Nat.zero_mul, Nat.zero_add]

theorem exponent?_of_exponentIs {cs : List Char} {n : ℤ} (h : ExponentIs cs n) : exponent? cs = some n := by
  cases h with
  | nothing => rfl
  | digits he hs hd =>
    rw [exponent?_sign he hs hd, natOf_zero, signOf]
    split <;> simp

/-- All digits are one number, and each digit behind the point is one place less. -/
theorem natOf_mul_zpow (whole fraction : List Char) (n : ℤ) :
    (natOf (natOf 0 whole) fraction : ℚ) * 10 ^ (n - fraction.length) =
      (placesOf whole + fractionOf fraction) * 10 ^ n := by
  have hpow : (10 : ℚ) ^ fraction.length ≠ 0 := by positivity
  rw [natOf_eq, natOf_zero, fractionOf, zpow_sub₀ (by norm_num), zpow_natCast]
  push_cast
  field_simp

theorem decimal?_of_mantissaIs {mantissa exponent : List Char} {m : ℚ} {n : ℤ} (hm : MantissaIs mantissa m)
    (he : ExponentIs exponent n) :
    ∃ digits places, decimal? (mantissa ++ exponent) = some (.decimal digits places) ∧
      (digits : ℚ) * 10 ^ places = m * 10 ^ n := by
  obtain ⟨hr, hp⟩ := endsRun_of_isExponent he.isExponent
  have hexp := exponent?_of_exponentIs he
  cases hm with
  | whole hw =>
    refine ⟨natOf 0 mantissa, n, ?_, by rw [natOf_zero]⟩
    rw [decimal?_of_noPoint hw.2 hr hp, if_neg (by simpa using hw.1), hexp, Option.map_some]
  | @point whole fraction hw hf =>
    refine ⟨_, _, ?_, natOf_mul_zpow whole fraction n⟩
    rw [List.append_assoc, List.cons_append, decimal?_of_point hw.2 hf hr, if_neg (by simp [hw.1]), hexp,
      Option.map_some]
  | @fraction fraction hf =>
    have hnone : ∀ c ∈ ([] : List Char), c.isDigit := by simp
    have hpoint := decimal?_of_point hnone hf.2 hr
    rw [List.nil_append] at hpoint
    refine ⟨_, _, ?_, (natOf_mul_zpow [] fraction n).trans (by simp [placesOf])⟩
    rw [List.cons_append, hpoint, if_neg (by simp [hf.1]), hexp, Option.map_some]

theorem cast_signOf (text : List Char) : (signOf text : ℚ) = sign (text = ['-']) := by
  rw [signOf, sign]
  by_cases h : text = ['-'] <;> simp [h]

theorem shape?_of_mantissaIs {token : String} {text mantissa exponent : List Char} {m : ℚ} {n : ℤ}
    (hs : text ∈ [[], ['+'], ['-']]) (hm : MantissaIs mantissa m) (he : ExponentIs exponent n)
    (ht : token.toList = text ++ (mantissa ++ exponent)) :
    ∃ digits places, shape? token = some (decide (text = ['-']), .decimal digits places) ∧
      (digits : ℚ) * 10 ^ places = m * 10 ^ n := by
  obtain ⟨digits, places, hd, hx⟩ := decimal?_of_mantissaIs hm he
  have hhead := IsDecimal.head ⟨_, _, hm.isMantissa, he.isExponent, rfl⟩
  refine ⟨digits, places, ?_, hx⟩
  simp only [shape?, ht, takeSign_sign hs hhead, hd, Option.some_or, Option.map_some]

/-- A decimal token is read as the number that it stands for. -/
theorem shape?_of_denotes {token : String} {x : ℚ} (h : Denotes token x) :
    ∃ negative digits places, shape? token = some (negative, .decimal digits places) ∧
      x = sign negative * (digits * 10 ^ places) := by
  obtain ⟨hs, hm, he, ht⟩ := h
  obtain ⟨digits, places, hshape, hx⟩ := shape?_of_mantissaIs hs hm he ht
  exact ⟨_, digits, places, hshape, by rw [hx, cast_signOf]⟩

theorem Denotes.unique {token : String} {x y : ℚ} (hx : Denotes token x) (hy : Denotes token y) : x = y := by
  obtain ⟨negative, digits, places, hs, rfl⟩ := shape?_of_denotes hx
  obtain ⟨_, _, _, hs', rfl⟩ := shape?_of_denotes hy
  cases hs.symm.trans hs'
  rfl

/-- What is read of a token is one rounding of its number, given as a quotient. -/
theorem exists_read_of_denotes {token : String} {x : ℚ} (h : Denotes token x) (table : String) :
    ∃ (negative : Bool) (num den : ℕ), den ≠ 0 ∧ x = sign negative * (num / den) ∧
      read table token = .ok (.ofQuotient negative num den) := by
  obtain ⟨negative, digits, places, hs, hx⟩ := shape?_of_denotes h
  refine ⟨negative, digits * 10 ^ places.toNat, 10 ^ (-places).toNat, (Nat.pow_pos (by omega)).ne', ?_, ?_⟩
  · rw [hx, Binary64.cast_decimal]
  · simp only [read, hs, Binary64.ofDecimal_eq]

end NodeMemory.Value
