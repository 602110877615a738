import NodeMemory.Glob
import NodeMemory.NodeTable
import NodeMemory.Sorting
/-!
# The nodes of a NUMA machine

Every node has a directory `devices/system/node/node<digits>` below the system
root, with its two tables. A pass reads the directories in the order of their
paths and gives all records or, at the first fault, none.
-/

namespace NodeMemory.Numa

/-! ## Node directories -/

/-- Where the node directories are, below the system root. -/
def directoryNames : List String := ["devices", "system", "node"]

/-- What the name of a node directory begins with. -/
def nodeName : String := "node"

/-- The pattern of the node directories below a system root. The root is part of
the pattern, so signs in it count as signs too. -/
def pattern (root : Path) : Path :=
  { root with names := root.names ++ directoryNames ++ [nodeName ++ "[0-9]*"] }

def pathLe (a b : Path) : Bool := Sorting.textLe a.text b.text

/-- What the pattern meets, in the order of the path texts. -/
def discover (t : FileTree) (root : Path) : Except Fault (List Path) :=
  (Glob.expand t (pattern root)).map (Sorting.sortBy pathLe)

/-! ## Node ids -/

/-- What stands before the id in the text of a node directory's path. -/
def marker : String := "/".intercalate directoryNames ++ "/" ++ nodeName

/-- Nothing is left of a text but perhaps a line feed. -/
def atEnd : List Char → Bool
  | [] => true
  | [c] => c = '\n'
  | _ => false

/-- The id at the front, which goes on to the end. It takes every digit, and gives them
back from the last one on until the end is next. -/
def digitsToEnd? : List Char → Option (List Char)
  | [] => none
  | c :: cs =>
    if Value.isDigit c then
      match digitsToEnd? cs with
      | some digits => some (c :: digits)
      | none => if atEnd cs then some [c] else none
    else none

/-- The id after a marker at the front. -/
def markedId? (cs : List Char) : Option (List Char) :=
  if marker.toList.isPrefixOf cs then digitsToEnd? (cs.drop marker.length) else none

/-- The id after a marker anywhere in the first line. What is before the marker takes
every character of the line, and gives them back from the last one on until a marker
with an id is next. -/
def idFrom? : List Char → Option (List Char)
  | [] => none
  | c :: cs =>
    let further := if c = '\n' then none else idFrom? cs
    match further with
    | some id => some id
    | none => markedId? (c :: cs)

/-- The id in the text of a path. -/
def idOf? (text : String) : Option String := (idFrom? text.toList).map String.ofList

def nodeId (text : String) : Except Fault String :=
  match idOf? text with
  | some id => .ok id
  | none => .error (.badNodePath text)

/-! ## A pass -/

/-- The records of one node directory: the gauges, then the counters. -/
def readNode (t : FileTree) (directory : Path) : Except Fault (List Record) := do
  let memory ← t.read (directory.child "meminfo")
  let gauges ← NodeTable.readFile NodeTable.gauge (.ofBytes memory)
  let counts ← t.read (directory.child "numastat")
  let id ← nodeId directory.text
  let counters ← NodeTable.readFile (NodeTable.counter id) (.ofBytes counts)
  return gauges ++ counters

def readNodes (t : FileTree) : List Path → Except Fault (List Record)
  | [] => .ok []
  | d :: ds => do
    let first ← readNode t d
    let rest ← readNodes t ds
    return first ++ rest

def read (t : FileTree) (root : Path) : Except Fault (List Record) := do
  readNodes t (← discover t root)

end NodeMemory.Numa
