import NodeMemory.Number.Numeral
import NodeMemory.Fault
/-!
# Value tokens

A value column holds an optional sign and then a decimal in ASCII digits, with an
optional fraction and exponent, or one of the words `inf`, `infinity` and `nan` in
any case. Digit separators, other digits and surrounding blanks are refused.

Words are compared without regard to case. Two letters beyond ASCII compare as
`i`: the dotless `ı` and the dotted `İ`. A word spelt with one of them is
recognised as a word, and then refused because it names no number.
-/

namespace NodeMemory.Value

/-- What a token without its sign stands for. -/
inductive Shape where
  /-- digits · 10^exponent -/
  | decimal (digits : Nat) (exponent : Int)
  | infinity
  | nan
  /-- A word spelt with a letter beyond ASCII. -/
  | misspelt
  deriving DecidableEq, Repr

/-! ## Decimals -/

def isDigit (c : Char) : Bool := '0' ≤ c && c ≤ '9'

/-- The value of one digit. -/
def digitVal (c : Char) : Nat := c.toNat - '0'.toNat

/-- The natural number that digits stand for, after those already read. -/
def natOf (read : Nat) (digits : List Char) : Nat :=
  digits.foldl (fun n c => 10 * n + digitVal c) read

/-- The sign of a text, negative or not, and what follows it. -/
def takeSign : List Char → Bool × List Char
  | '+' :: cs => (false, cs)
  | '-' :: cs => (true, cs)
  | cs => (false, cs)

/-- The exponent that follows the digits of a decimal: none at all, or a letter, an
optional sign and at least one digit, to the end. -/
def exponent? : List Char → Option Int
  | [] => some 0
  | c :: cs =>
    if c = 'e' ∨ c = 'E' then
      let (negative, digits) := takeSign cs
      if digits.isEmpty || !digits.all isDigit then none
      else
        let n : Int := natOf 0 digits
        some (if negative then -n else n)
    else none

/-- A decimal without a sign: digits on at least one side of an optional point. -/
def decimal? (cs : List Char) : Option Shape :=
  let (before, rest) := cs.span isDigit
  let (after, rest) :=
    match rest with
    | '.' :: rest => rest.span isDigit
    | rest => ([], rest)
  if before.isEmpty && after.isEmpty then none
  else (exponent? rest).map fun e => .decimal (natOf (natOf 0 before) after) (e - after.length)

/-! ## Words -/

/-- The ASCII small letter that a character compares as. -/
def fold (c : Char) : Char :=
  if 'A' ≤ c ∧ c ≤ 'Z' then Char.ofNat (c.toNat + 32)
  else if c = 'ı' ∨ c = 'İ' then 'i'
  else c

/-- A word, compared without regard to case. -/
def word? (cs : List Char) : Option Shape :=
  let found :=
    match cs.map fold with
    | ['i', 'n', 'f'] => some Shape.infinity
    | ['i', 'n', 'f', 'i', 'n', 'i', 't', 'y'] => some .infinity
    | ['n', 'a', 'n'] => some .nan
    | _ => none
  found.map fun shape => if cs.all fun c => c.toNat < 0x80 then shape else .misspelt

/-! ## Tokens -/

/-- What a token stands for, and whether it is negative. -/
def shape? (token : String) : Option (Bool × Shape) :=
  let (negative, body) := takeSign token.toList
  ((decimal? body).or (word? body)).map fun shape => (negative, shape)

/-- The value nearest to what the token stands for. -/
def read (table token : String) : Except Fault Binary64 :=
  match shape? token with
  | none => .error (.badValue table token)
  | some (_, .misspelt) => .error (.misspeltValue token)
  | some (_, .nan) => .ok .nan
  | some (negative, .infinity) => .ok (.infinite negative)
  | some (negative, .decimal digits exponent) => .ok (.ofDecimal negative digits exponent)

/-- A count of kibibytes in bytes. -/
def kibibytes (x : Binary64) : Binary64 := x.mul (Binary64.ofNat 1024)

end NodeMemory.Value
