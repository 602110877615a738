import NodeMemory.Text.Blank
/-!
# Integers in text

An integer is written with an optional sign and decimal digits of any script, with
single underscores between digits, and white space around it. A text with too many
digits is refused, whatever they are.
-/

namespace NodeMemory.Text

/-- The code points of the zeros of all scripts. The other nine digits follow each. -/
def decimalZeros : List Nat :=
  [0x0030, 0x0660, 0x06F0, 0x07C0, 0x0966, 0x09E6, 0x0A66, 0x0AE6, 0x0B66, 0x0BE6, 0x0C66, 0x0CE6, 0x0D66,
   0x0DE6, 0x0E50, 0x0ED0, 0x0F20, 0x1040, 0x1090, 0x17E0, 0x1810, 0x1946, 0x19D0, 0x1A80, 0x1A90, 0x1B50,
   0x1BB0, 0x1C40, 0x1C50, 0xA620, 0xA8D0, 0xA900, 0xA9D0, 0xA9F0, 0xAA50, 0xABF0, 0xFF10, 0x104A0, 0x10D30,
   0x11066, 0x110F0, 0x11136, 0x111D0, 0x112F0, 0x11450, 0x114D0, 0x11650, 0x116C0, 0x11730, 0x118E0,
   0x11950, 0x11C50, 0x11D50, 0x11DA0, 0x16A60, 0x16AC0, 0x16B50, 0x1D7CE, 0x1D7D8, 0x1D7E2, 0x1D7EC,
   0x1D7F6, 0x1E140, 0x1E2F0, 0x1E950, 0x1FBF0]

/-- The value of a decimal digit: its distance from its zero. -/
def decimalDigit? (c : Char) : Option Nat :=
  (decimalZeros.find? fun z => z ≤ c.toNat && c.toNat ≤ z + 9).map fun z => c.toNat - z

/-- White space: the blanks less the information separators. -/
def isWhiteSpace (c : Char) : Bool := isBlank c && !inRanges [(0x1C, 0x1F)] c.toNat

/-- The most digits that an integer may have. -/
def digitLimit : Nat := 4300

/-- The values of digits with single underscores between them, at least one. -/
def digitValues? : List Char → Option (List Nat)
  | [] => none
  | [c] => (decimalDigit? c).map fun d => [d]
  | c :: '_' :: rest =>
    match decimalDigit? c, digitValues? rest with
    | some d, some ds => some (d :: ds)
    | _, _ => none
  | c :: rest =>
    match decimalDigit? c, digitValues? rest with
    | some d, some ds => some (d :: ds)
    | _, _ => none

/-- The natural number that digits stand for. -/
def natural? (cs : List Char) : Option Nat :=
  match digitValues? cs with
  | none => none
  | some ds => if digitLimit < ds.length then none else some (ds.foldl (fun n d => 10 * n + d) 0)

/-- The integer that a text stands for. -/
def integer? (text : String) : Option Int :=
  match dropEnd isWhiteSpace (text.toList.dropWhile isWhiteSpace) with
  | '-' :: cs => (natural? cs).map fun n => -(n : Int)
  | '+' :: cs => (natural? cs).map fun n => (n : Int)
  | cs => (natural? cs).map fun n => (n : Int)

end NodeMemory.Text
