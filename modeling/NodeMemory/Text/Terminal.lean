/-!
# Control sequences

A terminal takes its orders from the text that is written to it: an escape and an
opening bracket, arguments, and one letter. What is written anywhere else goes
without them.
-/

namespace NodeMemory.Text

/-- A character may stand between the bracket and the letter of a control sequence. -/
def isControlArgument (c : Char) : Bool := ('0' ≤ c && c ≤ '9') || c == ';' || c == '?'

/-- A character may end a control sequence. -/
def isControlEnd (c : Char) : Bool := ('a' ≤ c && c ≤ 'z') || ('A' ≤ c && c ≤ 'Z')

/-- How long the control sequence at the front of a text is; nothing if there is
none. -/
def controlLength : List Char → Nat
  | '\x1b' :: '[' :: cs =>
    match cs.span isControlArgument with
    | (arguments, c :: _) => if isControlEnd c then arguments.length + 3 else 0
    | (_, []) => 0
  | _ => 0

/-- A text without its control sequences, from behind a number of characters that
belong to one. -/
def dropControls : Nat → List Char → List Char
  | _, [] => []
  | skipped + 1, _ :: cs => dropControls skipped cs
  | 0, c :: cs =>
    match controlLength (c :: cs) with
    | 0 => c :: dropControls 0 cs
    | behind + 1 => dropControls behind cs

/-- A text without its control sequences. A sequence that only comes together when
another is taken out stays. -/
def withoutControls (text : String) : String := String.ofList (dropControls 0 text.toList)

end NodeMemory.Text
