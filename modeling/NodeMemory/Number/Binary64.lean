/-!
# Binary64 values

A finite magnitude is given by its rank among all finite magnitudes, in ascending
order. Ranks below 2^52 are the subnormals; above, a rank is the exponent field
followed by 52 bits of fraction, so the next rank is always the next magnitude
and a carry of the rounding into the next exponent needs no care.

Every operation computes its exact result as a quotient of naturals and rounds
once (`rankOfQuotient`), to the nearest magnitude and to the even rank on a tie.
A magnitude counts `units` of 2^-1074, the least one above zero.
-/

namespace NodeMemory

/-- How many fractions there are under one exponent: 2^52. -/
def fractionCount : Nat := Nat.pow 2 52

/-- How many finite magnitudes there are: 2047 exponents, each with all fractions. -/
def rankCount : Nat := 2047 * fractionCount

inductive Binary64 where
  | nan
  | infinite (negative : Bool)
  | finite (negative : Bool) (rank : Fin rankCount)
  deriving DecidableEq

namespace Binary64

/-- One, in units of 2^-1074. -/
def one : Nat := Nat.pow 2 1074

/-- The magnitude of a rank, in units of 2^-1074. -/
def units (rank : Nat) : Nat :=
  if rank < fractionCount then rank
  else (fractionCount + rank % fractionCount) * Nat.pow 2 (rank / fractionCount - 1)

/-! ## Rounding -/

/-- The natural number nearest to a quotient, the even one on a tie. -/
def roundQuotient (num den : Nat) : Nat :=
  let q := num / den
  let r := num % den
  if 2 * r < den then q else if den < 2 * r then q + 1 else q + q % 2

/-- The exponent of the greatest power of two that is at most a quotient. -/
def log2Quotient (num den : Nat) : Int :=
  let guess : Int := (num.log2 : Int) - den.log2
  if den * Nat.pow 2 guess.toNat ≤ num * Nat.pow 2 (-guess).toNat then guess else guess - 1

/-- The rank nearest to a positive quotient: 53 bits are kept, or fewer where the
last of them would lie below 2^-1074. It is `rankCount` or more if the nearest
magnitude is none of the finite ones. -/
def rankOfQuotient (num den : Nat) : Nat :=
  if num = 0 then 0
  else
    let last := max (log2Quotient num den - 52) (-1074)
    (last + 1074).toNat * fractionCount +
      roundQuotient (num * Nat.pow 2 (-last).toNat) (den * Nat.pow 2 last.toNat)

/-- A rank with a sign; a rank beyond the finite ones is infinite. -/
def ofRank (negative : Bool) (rank : Nat) : Binary64 :=
  if h : rank < rankCount then .finite negative ⟨rank, h⟩ else .infinite negative

/-- The value nearest to a quotient. -/
def ofQuotient (negative : Bool) (num den : Nat) : Binary64 :=
  ofRank negative (rankOfQuotient num den)

def zero : Binary64 := .finite false ⟨0, by decide⟩

/-! ## Values of numbers -/

/-- The value nearest to digits · 10^exponent. A power of ten that settles the
result alone, beyond the range at either end, is not computed. -/
def ofDecimal (negative : Bool) (digits : Nat) (exponent : Int) : Binary64 :=
  if digits = 0 then ofRank negative 0
  else if 400 < exponent then .infinite negative
  else if exponent < -(400 + digits.log2 : Int) then ofRank negative 0
  else ofQuotient negative (digits * Nat.pow 10 exponent.toNat) (Nat.pow 10 (-exponent).toNat)

/-- The value nearest to an integer, unless that is beyond the finite ones. -/
def ofInt? (n : Int) : Option Binary64 :=
  match ofQuotient (n < 0) n.natAbs 1 with
  | .finite negative rank => some (.finite negative rank)
  | _ => none

/-! ## Arithmetic -/

def mul : Binary64 → Binary64 → Binary64
  | .finite s x, .finite t y => ofQuotient (s != t) (units x * units y) (one * one)
  | .infinite s, .infinite t => .infinite (s != t)
  | .infinite s, .finite t y => if y.val = 0 then .nan else .infinite (s != t)
  | .finite s x, .infinite t => if x.val = 0 then .nan else .infinite (s != t)
  | .nan, _ => .nan
  | _, .nan => .nan

/-- A finite value as a signed number of units. -/
def signedUnits (negative : Bool) (rank : Nat) : Int :=
  if negative then -(units rank) else units rank

/-- The difference, rounded once. Equal values differ by 0, which is negative
only in -0 - 0. -/
def sub : Binary64 → Binary64 → Binary64
  | .finite s x, .finite t y =>
    let d := signedUnits s x - signedUnits t y
    if d = 0 then ofRank (s && !t && x.val = 0) 0 else ofQuotient (d < 0) d.natAbs one
  | .infinite s, .infinite t => if s = t then .nan else .infinite s
  | .infinite s, .finite _ _ => .infinite s
  | .finite _ _, .infinite t => .infinite (!t)
  | .nan, _ => .nan
  | _, .nan => .nan

/-- The value of a natural number below 2^53, exactly. -/
def ofNat (n : Nat) : Binary64 := ofQuotient false n 1

/-- What the whole part of a value can be. -/
inductive Whole where
  | integer (n : Int)
  | ofInfinity
  | ofNan
  deriving DecidableEq

/-- The whole part: the fraction is dropped. -/
def whole : Binary64 → Whole
  | .finite negative rank =>
    let n : Int := units rank / one
    .integer (if negative then -n else n)
  | .infinite _ => .ofInfinity
  | .nan => .ofNan

end Binary64

end NodeMemory
