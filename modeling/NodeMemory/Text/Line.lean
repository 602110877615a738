/-!
# Lines

A text ends its lines with a line feed, a carriage return, or both together.
Reading turns each of these into one line feed, and a line keeps it.
-/

namespace NodeMemory.Text

/-- Every line end is written as one line feed. -/
def unifyLineEnds : List Char → List Char
  | [] => []
  | '\r' :: '\n' :: cs => '\n' :: unifyLineEnds cs
  | c :: cs => (if c = '\r' then '\n' else c) :: unifyLineEnds cs

/-- The line that starts at the front, and the lines after it. -/
def linesFrom : List Char → List Char × List (List Char)
  | [] => ([], [])
  | c :: cs =>
    let (line, later) := linesFrom cs
    if c = '\n' then (['\n'], if line.isEmpty then later else line :: later) else (c :: line, later)

/-- The lines of a text, each with the line feed that ends it. -/
def linesOf (cs : List Char) : List (List Char) :=
  let (line, later) := linesFrom cs
  if line.isEmpty then later else line :: later

/-- The lines of a text, whatever its line ends. -/
def lines (cs : List Char) : List String :=
  (linesOf (unifyLineEnds cs)).map String.ofList

/-- The lines of a text that goes on: the last one counts only if a line feed
ends it, and a carriage return at the very end may still be half a line end. -/
def finishedLines (cs : List Char) : List String :=
  let seen := if cs.getLast? = some '\r' then cs.dropLast else cs
  ((linesOf (unifyLineEnds seen)).filter fun line => line.getLast? = some '\n').map String.ofList

end NodeMemory.Text
