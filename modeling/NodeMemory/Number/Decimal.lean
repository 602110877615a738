import NodeMemory.Number.Binary64
/-!
# The shortest decimal

A finite value is written with the fewest digits that read back to it, and of two
such decimals with the nearer one. "Reads back" is the reader itself
(`Binary64.ofDecimal`), so what is written is read back by definition; for every
number of digits only the two neighbours of the value on the grid of that many
digits have to be tried.
-/

namespace NodeMemory

/-- The number digits · 10^exponent. -/
structure Decimal where
  digits : Nat
  exponent : Int
  deriving DecidableEq, Repr

namespace Decimal

/-- The first power of ten from a given one on that is above a number; `fuel` bounds
how many are tried. -/
def powerAbove (n : Nat) : Nat → Nat → Nat
  | 0, k => k
  | fuel + 1, k => if n < Nat.pow 10 k then k else powerAbove n fuel (k + 1)

/-- How many decimal digits a natural number has. Ten bits are at least three digits,
so the count starts close by. -/
def width (n : Nat) : Nat := powerAbove n (n.log2 + 1) (n.log2 * 3 / 10 + 1)

/-- A magnitude is this many units of 10^-1074. -/
def tenths (rank : Nat) : Nat := Binary64.units rank * Nat.pow 5 1074

/-- A decimal is read as this magnitude. -/
def ReadsAs (d : Decimal) (rank : Nat) : Prop :=
  Binary64.ofDecimal false d.digits d.exponent = Binary64.ofRank false rank

instance (d : Decimal) (rank : Nat) : Decidable (d.ReadsAs rank) :=
  inferInstanceAs (Decidable (_ = _))

/-- The better of the two neighbours of `value` on the grid of multiples of
10^`drop`, both in units of 10^-1074: one that reads back, the nearer one if both
do, the even one of two equally near. -/
def onGrid? (rank value drop : Nat) : Option Decimal :=
  let grid := Nat.pow 10 drop
  let below : Decimal := ⟨value / grid, drop - 1074⟩
  let above : Decimal := ⟨value / grid + 1, drop - 1074⟩
  if below.ReadsAs rank then
    if above.ReadsAs rank then
      let r := value % grid
      if 2 * r < grid then some below
      else if grid < 2 * r then some above
      else if below.digits % 2 = 0 then some below else some above
    else some below
  else if above.ReadsAs rank then some above
  else none

/-- Zeros at the end move into the exponent; the number of digits bounds how many. -/
def stripZeros : Nat → Decimal → Decimal
  | 0, d => d
  | fuel + 1, d =>
    if d.digits % 10 = 0 then stripZeros fuel ⟨d.digits / 10, d.exponent + 1⟩ else d

/-- The decimal with the fewest digits that is read as a positive magnitude. A
grid of 17 digits always has one; the exact value stands behind it. -/
def shortest (rank : Nat) : Decimal :=
  let value := tenths rank
  let w := width value
  let found := (List.range 17).findSome? fun n => onGrid? rank value (w - (n + 1))
  let d := found.getD ⟨value, -1074⟩
  stripZeros (width d.digits) d

end Decimal

end NodeMemory
