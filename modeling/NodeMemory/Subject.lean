/-!
# Subjects

What a collector is about: the memory of the whole machine, or that of each node of
a NUMA machine. The subject fixes the collector's name, the part that its metrics
have in their names, and their labels.
-/

namespace NodeMemory

/-- What a collector is about. -/
inductive Subject where
  | machine
  | nodes
  deriving DecidableEq, Repr

namespace Subject

/-- All subjects, in the order in which a pass goes through them. -/
def all : List Subject := [machine, nodes]

def name : Subject → String
  | machine => "meminfo"
  | nodes => "meminfo_numa"

def ofName? (text : String) : Option Subject := all.find? fun s => s.name = text

/-- What the metrics of the subject have in their names. -/
def subsystem : Subject → String
  | machine => "memory"
  | nodes => "memory_numa"

/-- The names of the labels of its metrics. -/
def labels : Subject → List String
  | machine => []
  | nodes => ["node"]

/-- What a failed reading is told with. -/
def failureLead : Subject → String
  | machine => "couldn't get meminfo: "
  | nodes => "couldn't get NUMA meminfo: "

end Subject

end NodeMemory
