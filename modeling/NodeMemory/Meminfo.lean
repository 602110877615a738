import NodeMemory.Key
import NodeMemory.Record
import NodeMemory.Text.File
import NodeMemory.Value
/-!
# The memory table of a machine

Each line holds a label and a value, and perhaps a unit: `MemTotal: 16286804 kB`.
A third field is taken for the unit, whatever it says; the figure is then counted
in bytes and its name says so. A later line with the same name replaces the value.
The first line that does not fit stops the reading.
-/

namespace NodeMemory.Meminfo

/-- What a figure counted in bytes has at the end of its name. -/
def bytesSuffix : String := "_bytes"

def table : String := "meminfo"

/-- The figure of a line that has at least a label and a value. -/
def figure (line label token : String) (unit : List String) : Except Fault (String × Binary64) :=
  match Value.read table token with
  | .error f => .error f
  | .ok x =>
    match unit with
    | [] => .ok (Key.canonical label, x)
    | [_] => .ok (Key.canonical label ++ bytesSuffix, Value.kibibytes x)
    | _ => .error (.badLine .unknownShape (Text.chomp line))

/-- The figure of a line, if the line holds anything. -/
def readLine (line : String) : Except Fault (Option (String × Binary64)) :=
  match Text.fields line with
  | [] => .ok none
  | [_] => .error (.badLine .unknownShape (Text.chomp line))
  | label :: token :: unit => (figure line label token unit).map some

/-- The figures of lines, added to those already read. -/
def readFrom (figures : Keyed Binary64) : List String → Except Fault (Keyed Binary64)
  | [] => .ok figures
  | line :: rest =>
    match readLine line with
    | .error f => .error f
    | .ok none => readFrom figures rest
    | .ok (some (name, x)) => readFrom (figures.insert name x) rest

def read (lines : List String) : Except Fault (Keyed Binary64) := readFrom .empty lines

def readFile (text : Text.FileText) : Except Fault (Keyed Binary64) :=
  match read text.lines, text.fault with
  | .error f, _ => .error f
  | .ok _, some f => .error (.undecodable f)
  | .ok figures, none => .ok figures

end NodeMemory.Meminfo
