import NodeMemory.Text.Line
import NodeMemory.Text.Utf8
/-!
# Reading a text file

The lines of a file are handed out as they are decoded, 8192 bytes at a time. Among
the first 8192, bytes that are not UTF-8 are seen before the first line. Only a
sequence that the end of the file cuts off is seen late, when more bytes were waited
for: the lines finished before it have been handed out then. What a reader gets of a
file with such bytes after the first 8192 is not described here.
-/

namespace NodeMemory.Text

/-- What a reader of a file gets: lines, and then perhaps a fault. -/
structure FileText where
  lines : List String
  fault : Option Utf8.Fault

/-- The sequence at fault is the last of the bytes, and more of them might have
completed it. The two bytes of a surrogate's beginning count as such a sequence. -/
def endsInside (bytes : List UInt8) (f : Utf8.Fault) : Bool :=
  match f.flaw with
  | .cutOff => true
  | .badContinuation =>
    match bytes.drop f.position with
    | [a, b] => a = 0xED && 0xA0 ≤ b && b ≤ 0xBF
    | _ => false
  | .badStart => false

/-- The lines of a file, if no byte after the first 8192 is at fault: before that, a
fault is seen ahead of the first line. The place of a fault that is seen late is
counted from the bytes that were waiting. -/
def FileText.ofBytes (bytes : List UInt8) : FileText :=
  let d := Utf8.decode bytes
  match d.fault with
  | none => ⟨Text.lines d.text, none⟩
  | some f =>
    if endsInside bytes f then ⟨finishedLines d.text, some { f with position := 0 }⟩
    else ⟨[], some f⟩

end NodeMemory.Text
