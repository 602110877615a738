/-!
# Field labels

The tables label a figure `Active(anon):`. The record name drops one colon at the
end and writes the qualifier after an underscore: `Active_anon`. A qualifier begins
at an opening parenthesis, goes as far as a closing one can end it, and stays within
its line. After it the search for the next one goes on.
-/

namespace NodeMemory.Key

/-- How long the qualifier is that begins at the front. It takes every character of the
line, and gives them back from the last one on until a closing parenthesis is next. -/
def qualifierLength? : List Char → Option Nat
  | [] => none
  | c :: cs =>
    let further := if c = '\n' then none else qualifierLength? cs
    match further with
    | some n => some (n + 1)
    | none => if c = ')' then some 0 else none

/-- Qualifiers are rewritten from left to right. Within one, the number of characters is
given that are left of it: they are kept, and the closing parenthesis goes. -/
def rewriteFrom : Option Nat → List Char → List Char
  | _, [] => []
  | some (left + 1), c :: cs => c :: rewriteFrom (some left) cs
  | some 0, _ :: cs => rewriteFrom none cs
  | none, c :: cs =>
    match if c = '(' then qualifierLength? cs else none with
    | some n => '_' :: rewriteFrom (some n) cs
    | none => c :: rewriteFrom none cs

/-- A text without its last character, if that is a colon. -/
def dropColon (cs : List Char) : List Char :=
  if cs.getLast? = some ':' then cs.dropLast else cs

/-- The record name of a field label. -/
def canonical (raw : String) : String := String.ofList (rewriteFrom none (dropColon raw.toList))

end NodeMemory.Key
