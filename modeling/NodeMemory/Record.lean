import NodeMemory.Keyed
import NodeMemory.Number.Binary64
import NodeMemory.Text.Quoted
/-!
# Records

A record is one memory figure: its name, whether it counts or measures, its value,
and the node it belongs to. A set of records is valid if every name is there and
free of parentheses and no two records share name and node (`check`).
-/

namespace NodeMemory

/-- A gauge goes up and down; a counter only grows. -/
inductive Kind where
  | gauge
  | counter
  deriving DecidableEq, Repr

def Kind.name : Kind → String
  | .gauge => "gauge"
  | .counter => "counter"

/-- What ends the name of a counter. -/
def counterSuffix : String := "_total"

def endsWith (text suffix : String) : Bool :=
  suffix.toList.reverse.isPrefixOf text.toList.reverse

/-- The kind that a name tells: a counter's name ends in `_total`. -/
def Kind.ofName (name : String) : Kind :=
  if endsWith name counterSuffix then .counter else .gauge

/-- One memory figure. The node is empty where the figure is the whole machine's. -/
structure Record where
  name : String
  kind : Kind
  value : Binary64
  node : String
  deriving DecidableEq

namespace Record

/-- The records of a table of figures; the names tell the kinds. -/
def ofFigures (figures : Keyed Binary64) : List Record :=
  figures.entries.map fun (name, value) => ⟨name, .ofName name, value, ""⟩

/-- The name of a metric: the parts that are not empty, joined by underscores. -/
def qualifiedName (parts : List String) : String :=
  "_".intercalate (parts.filter fun part => !part.isEmpty)

/-! ## Valid sets of records -/

/-- What is wrong with a record, after the records before it. -/
inductive Flaw where
  | noName
  | parenthesis (name : String)
  | duplicate (name node : String)
  deriving DecidableEq, Repr

def Flaw.message : Flaw → String
  | .noName => "record name is empty"
  | .parenthesis name => "record name contains parentheses: " ++ name
  | .duplicate name node => "duplicate record: name=" ++ name ++ " node=" ++ Text.quote node

/-- What is wrong with one record, where `seen` are the names and nodes before it. -/
def flaw? (seen : List (String × String)) (r : Record) : Option Flaw :=
  if r.name.isEmpty then some .noName
  else if r.name.toList.contains '(' || r.name.toList.contains ')' then some (.parenthesis r.name)
  else if (r.name, r.node) ∈ seen then some (.duplicate r.name r.node)
  else none

/-- The first flaw of a list of records, in its order. -/
def checkFrom (seen : List (String × String)) : List Record → Except Flaw Unit
  | [] => .ok ()
  | r :: rs =>
    match flaw? seen r with
    | some f => .error f
    | none => checkFrom ((r.name, r.node) :: seen) rs

def check (records : List Record) : Except Flaw Unit := checkFrom [] records

end Record

end NodeMemory
