import NodeMemory.Text.Printable
import NodeMemory.Text.Utf8
/-!
# Quoted text

How a message quotes a text that may hold anything: between single quotes, or
between double quotes if that saves escaping. What is not printable is written by
its code point.
-/

namespace NodeMemory.Text

/-- The quote that a text is put between: double quotes only if it holds a single
quote and no double quote. -/
def quoteFor (cs : List Char) : Char :=
  if cs.contains '\'' && !cs.contains '"' then '"' else '\''

/-- A code point in the shortest of the three escape forms. -/
def escapeCode (n : Nat) : List Char :=
  if n < 0x100 then '\\' :: 'x' :: (Utf8.hex 2 n).toList
  else if n < 0x10000 then '\\' :: 'u' :: (Utf8.hex 4 n).toList
  else '\\' :: 'U' :: (Utf8.hex 8 n).toList

/-- One character of a quoted text. -/
def quoteChar (mark c : Char) : List Char :=
  if c = mark ∨ c = '\\' then ['\\', c]
  else if c = '\t' then ['\\', 't']
  else if c = '\n' then ['\\', 'n']
  else if c = '\r' then ['\\', 'r']
  else if isPrintable c then [c]
  else escapeCode c.toNat

/-- A text between quotes. -/
def quote (text : String) : String :=
  let cs := text.toList
  let mark := quoteFor cs
  String.ofList (mark :: cs.flatMap (quoteChar mark) ++ [mark])

end NodeMemory.Text
