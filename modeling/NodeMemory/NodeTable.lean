import NodeMemory.Meminfo
/-!
# The tables of one node

A node has a memory table, whose lines hold the node before label and value
(`Node 0 MemFree: 1245200 kB`), and a table of event counts (`numa_hit 42`). The
memory lines are gauges of the node that the line names; the counts are counters
of the node that the table belongs to. Here only `kB` is a unit.
-/

namespace NodeMemory.NodeTable

/-- The gauge of a memory line, given without the blanks around it. -/
def gauge (line : String) : Except Fault Record :=
  match Text.fields line with
  | _ :: node :: label :: token :: unit =>
    match Value.read Meminfo.table token with
    | .error f => .error f
    | .ok x =>
      if unit = ["kB"] then
        .ok ⟨Key.canonical label ++ Meminfo.bytesSuffix, .gauge, Value.kibibytes x, node⟩
      else if unit.isEmpty then .ok ⟨Key.canonical label, .gauge, x, node⟩
      else .error (.badLine .unknownShape line)
  | _ => .error (.badLine .unknownShape line)

def countTable : String := "numastat"

/-- The counter of a line of counts, given without the blanks around it. -/
def counter (node line : String) : Except Fault Record :=
  match Text.fields line with
  | [name, token] =>
    match Value.read countTable token with
    | .error f => .error f
    | .ok x => .ok ⟨name ++ counterSuffix, .counter, x, node⟩
  | _ => .error (.badLine .notTwoFields line)

/-- The records of the lines that hold anything, up to the first that does not fit. -/
def readWith (record : String → Except Fault Record) : List String → Except Fault (List Record)
  | [] => .ok []
  | raw :: rest =>
    let line := Text.strip raw
    if line.isEmpty then readWith record rest
    else
      match record line with
      | .error f => .error f
      | .ok r => (readWith record rest).map (r :: ·)

def readMemory (lines : List String) : Except Fault (List Record) := readWith gauge lines

def readCounts (node : String) (lines : List String) : Except Fault (List Record) :=
  readWith (counter node) lines

def readFile (record : String → Except Fault Record) (text : Text.FileText) : Except Fault (List Record) :=
  match readWith record text.lines, text.fault with
  | .error f, _ => .error f
  | .ok _, some f => .error (.undecodable f)
  | .ok records, none => .ok records

end NodeMemory.NodeTable
