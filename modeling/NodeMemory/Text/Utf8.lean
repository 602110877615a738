/-!
# UTF-8

The decoder reads one byte at a time and stops at the first byte that no
well-formed text has in that place. A fault names the bytes of the sequence that
were well formed up to there and where it starts.
-/

namespace NodeMemory.Text.Utf8

/-- What is wrong with a sequence of bytes. -/
inductive Flaw where
  /-- No sequence starts with this byte. -/
  | badStart
  /-- The byte that follows does not continue the sequence. -/
  | badContinuation
  /-- The data end inside the sequence. -/
  | cutOff
  deriving DecidableEq, Repr

/-- The first sequence that cannot be decoded. -/
structure Fault where
  flaw : Flaw
  /-- The first byte of the sequence. -/
  lead : UInt8
  /-- How many bytes of the sequence were well formed, at least one. -/
  size : Nat
  /-- How many bytes stand before the sequence. -/
  position : Nat
  deriving DecidableEq, Repr

/-- A sequence that has begun: what the next byte may be and how many are owed. -/
structure Partial where
  lead : UInt8
  start : Nat
  size : Nat
  owed : Nat
  low : Nat
  high : Nat
  bits : Nat

/-- The first byte of a sequence of several bytes fixes its length, the range of
the second byte, and the leading bits. -/
def Partial.ofLead? (b : UInt8) (start : Nat) : Option Partial :=
  let n := b.toNat
  if 0xC2 ≤ n ∧ n ≤ 0xDF then some ⟨b, start, 1, 1, 0x80, 0xBF, n - 0xC0⟩
  else if n = 0xE0 then some ⟨b, start, 1, 2, 0xA0, 0xBF, 0⟩
  else if n = 0xED then some ⟨b, start, 1, 2, 0x80, 0x9F, 0xD⟩
  else if 0xE1 ≤ n ∧ n ≤ 0xEF then some ⟨b, start, 1, 2, 0x80, 0xBF, n - 0xE0⟩
  else if n = 0xF0 then some ⟨b, start, 1, 3, 0x90, 0xBF, 0⟩
  else if 0xF1 ≤ n ∧ n ≤ 0xF3 then some ⟨b, start, 1, 3, 0x80, 0xBF, n - 0xF0⟩
  else if n = 0xF4 then some ⟨b, start, 1, 3, 0x80, 0x8F, 4⟩
  else none

/-- One more byte of the sequence. -/
def Partial.push (p : Partial) (b : UInt8) : Partial :=
  { p with
    size := p.size + 1, owed := p.owed - 1, low := 0x80, high := 0xBF,
    bits := p.bits * 64 + (b.toNat - 0x80) }

/-- The next byte may continue the sequence. -/
def Partial.accepts (p : Partial) (b : UInt8) : Bool := p.low ≤ b.toNat && b.toNat ≤ p.high

def Partial.fault (p : Partial) (flaw : Flaw) : Fault := ⟨flaw, p.lead, p.size, p.start⟩

/-- The text decoded so far and what stopped the decoder. -/
structure Decoded where
  text : List Char
  fault : Option Fault

def Decoded.cons (c : Char) (d : Decoded) : Decoded := { d with text := c :: d.text }

/-- Decodes from a position on, inside a sequence or between two. -/
def scan (position : Nat) : Option Partial → List UInt8 → Decoded
  | none, [] => ⟨[], none⟩
  | some p, [] => ⟨[], some (p.fault .cutOff)⟩
  | none, b :: bs =>
    if b.toNat < 0x80 then (scan (position + 1) none bs).cons (Char.ofNat b.toNat)
    else
      match Partial.ofLead? b position with
      | some p => scan (position + 1) (some p) bs
      | none => ⟨[], some ⟨.badStart, b, 1, position⟩⟩
  | some p, b :: bs =>
    if p.accepts b then
      let q := p.push b
      if q.owed = 0 then (scan (position + 1) none bs).cons (Char.ofNat q.bits)
      else scan (position + 1) (some q) bs
    else ⟨[], some (p.fault .badContinuation)⟩

/-- Decodes a whole byte string. -/
def decode (bytes : List UInt8) : Decoded := scan 0 none bytes

/-- The bytes of a text. -/
def encode (text : String) : List UInt8 := text.toUTF8.toList

/-! ## Naming a fault -/

def Flaw.reason : Flaw → String
  | .badStart => "invalid start byte"
  | .badContinuation => "invalid continuation byte"
  | .cutOff => "unexpected end of data"

/-- The lower-case hexadecimal digit of a number below 16. -/
def hexDigit (n : Nat) : Char :=
  if n < 10 then Char.ofNat (48 + n) else Char.ofNat (87 + n)

/-- A number in lower-case hexadecimal, with a fixed number of digits. -/
def hex (width n : Nat) : String :=
  String.ofList ((List.range width).reverse.map fun i => hexDigit (n / Nat.pow 16 i % 16))

def Fault.message (f : Fault) : String :=
  let place :=
    if f.size = 1 then "byte 0x" ++ hex 2 f.lead.toNat ++ " in position " ++ toString f.position
    else "bytes in position " ++ toString f.position ++ "-" ++ toString (f.position + f.size - 1)
  "'utf-8' codec can't decode " ++ place ++ ": " ++ f.flaw.reason

end NodeMemory.Text.Utf8
