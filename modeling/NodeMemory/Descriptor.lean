import NodeMemory.Record
/-!
# Descriptors

What is said about a metric beside its values: its full name, a sentence about it,
its kind and its labels. A collector keeps the descriptor of every record name it
has met. The first request for a name settles its descriptor for good.
-/

namespace NodeMemory

structure Descriptor where
  fullName : String
  documentation : String
  kind : Kind
  labels : List String
  deriving DecidableEq, Repr

/-- The descriptors of one collector, by record name. -/
structure DescriptorCache where
  scope : String
  subsystem : String
  labels : List String
  known : Keyed Descriptor

namespace DescriptorCache

/-- A cache that has met no name yet; `scope` begins the names of all metrics. -/
def fresh (scope subsystem : String) (labels : List String) : DescriptorCache :=
  ⟨scope, subsystem, labels, .empty⟩

/-- The descriptor that a first request builds. -/
def build (c : DescriptorCache) (name : String) (kind : Kind) : Descriptor where
  fullName := Record.qualifiedName [c.scope, c.subsystem, name]
  documentation := "Memory information field " ++ name ++ "."
  kind := kind
  labels := c.labels

/-- The descriptor of a name, and the cache that knows it. -/
def request (c : DescriptorCache) (name : String) (kind : Kind) : Descriptor × DescriptorCache :=
  match c.known.get? name with
  | some d => (d, c)
  | none =>
    let d := c.build name kind
    (d, { c with known := c.known.insert name d })

def size (c : DescriptorCache) : Nat := c.known.size

def contains (c : DescriptorCache) (name : String) : Bool := c.known.contains name

end DescriptorCache

end NodeMemory
