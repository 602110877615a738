import NodeMemory.Json
import NodeMemory.Record
/-!
# The report of a pass

The records of every subsystem as one JSON document, beside what is known of the
pass. Inside a subsystem the records are ordered by node and name.
-/

namespace NodeMemory.Report

def ofRecord (r : Record) : Json :=
  .object [("name", .string r.name), ("kind", .string r.kind.name), ("value", .number r.value),
    ("node", .string r.node)]

def recordLe (a b : Record) : Bool := Sorting.pairLe (a.node, a.name) (b.node, b.name)

/-- The records of a subsystem in their order in the report. -/
def arrange (records : List Record) : List Record := Sorting.sortBy recordLe records

/-- The document: what is known of the pass, and the records of each subsystem. -/
def document (subsystems : Keyed (List Record)) (about : List (String × Json)) : Json :=
  .object [("meta", .object about),
    ("records", .object (subsystems.entries.map fun (name, records) =>
      (name, .array ((arrange records).map ofRecord))))]

/-- What is told of a value that has no place in a report. -/
def refusal (what : Foreign) : String :=
  let name :=
    match what with
    | .path => "PosixPath"
    | .failure => "ValueError"
  "Object of type " ++ name ++ " is not JSON serializable"

/-- The text of the document; a report holds JSON values alone, and refuses any other. -/
def render (subsystems : Keyed (List Record)) (about : List (String × Json)) : Except String String :=
  let d := document subsystems about
  match d.foreign? with
  | some what => .error (refusal what)
  | none => .ok d.render

end NodeMemory.Report
