import NodeMemory.Number.Decimal
/-!
# How values are written

One layout writes every finite value: with a point and at least one digit after it
while the exponent of the leading digit lies in a range, otherwise with a signed
exponent of at least two digits. Where the range ends, and what stands for the
values that are not finite, is chosen by the place that writes the value.
-/

namespace NodeMemory

/-- The decisions of one place that writes values. -/
structure Numeral where
  /-- From this exponent of the leading digit on, a value that is not negative is
  written with an exponent. -/
  scientificFrom : Int
  nan : String
  infinity : String
  minusInfinity : String

namespace Numeral

/-- Below this exponent of the leading digit, a value is written with an exponent. -/
def plainFrom : Int := -4

/-- From this exponent of the leading digit on, a negative value is written with
an exponent. -/
def negativeScientificFrom : Int := 16

/-- Digits with a point after the first `whole` of them, filled up with zeros. -/
def positional (digits : List Char) (whole : Int) : List Char :=
  if whole ≤ 0 then '0' :: '.' :: List.replicate (-whole).toNat '0' ++ digits
  else
    let before := digits.take whole.toNat
    let after := digits.drop whole.toNat
    before ++ List.replicate (whole.toNat - digits.length) '0' ++ '.' :: (if after.isEmpty then ['0'] else after)

/-- An exponent: its sign and at least two digits. -/
def exponentText (e : Int) : List Char :=
  let digits := (Nat.repr e.natAbs).toList
  (if e < 0 then '-' else '+') :: (if digits.length < 2 then '0' :: digits else digits)

/-- Digits with a point after the first, if there are more, and an exponent. -/
def scientific (digits : List Char) (e : Int) : List Char :=
  digits.take 1 ++ (if digits.length ≤ 1 then [] else '.' :: digits.drop 1) ++ 'e' :: exponentText e

/-- A positive decimal without zeros at its end. -/
def layout (scientificFrom : Int) (d : Decimal) : List Char :=
  let digits := (Nat.repr d.digits).toList
  let whole : Int := digits.length + d.exponent
  if plainFrom ≤ whole - 1 ∧ whole - 1 < scientificFrom then positional digits whole
  else scientific digits (whole - 1)

def render (style : Numeral) : Binary64 → String
  | .nan => style.nan
  | .infinite negative => if negative then style.minusInfinity else style.infinity
  | .finite negative rank =>
    let switch := if negative then negativeScientificFrom else style.scientificFrom
    let text := if rank.val = 0 then ['0', '.', '0'] else layout switch (Decimal.shortest rank)
    String.ofList (if negative then '-' :: text else text)

/-- In a JSON document. The texts of values that are not finite are no JSON numbers. -/
def json : Numeral := ⟨16, "NaN", "Infinity", "-Infinity"⟩

/-- In the exposition text: values from a million on are written with an exponent. -/
def exposition : Numeral := ⟨6, "NaN", "+Inf", "-Inf"⟩

end Numeral

end NodeMemory
