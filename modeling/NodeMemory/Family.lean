import NodeMemory.Descriptor
/-!
# Metric families

A family is a metric with all its samples. The records of a pass are grouped by
name, one family for each name in the order of first occurrence; the descriptor of
the name decides what kind of family it is.
-/

namespace NodeMemory

structure Sample where
  name : String
  labels : List (String × String)
  value : Binary64
  deriving DecidableEq

structure Family where
  name : String
  documentation : String
  kind : Kind
  /-- The names of the labels of its samples. -/
  labels : List String
  samples : List Sample
  deriving DecidableEq

namespace Family

/-- A text without one `_total` at its end. -/
def dropCounterSuffix (text : String) : String :=
  if endsWith text counterSuffix then
    String.ofList (text.toList.take (text.length - counterSuffix.length))
  else text

/-- The name of a family: that of its metric, less what tells a counter. -/
def baseName (fullName : String) : Kind → String
  | .gauge => fullName
  | .counter => dropCounterSuffix fullName

/-- A metric whose family would have no name. -/
def unnamed : String := "metric name cannot be empty"

/-- The family of a metric, without samples. It has to have a name. -/
def ofDescriptor? (d : Descriptor) : Option Family :=
  let name := baseName d.fullName d.kind
  if name.isEmpty then none else some ⟨name, d.documentation, d.kind, d.labels, []⟩

/-- The name of the samples: a counter's say again that it counts. -/
def sampleName (f : Family) : String :=
  match f.kind with
  | .gauge => f.name
  | .counter => f.name ++ counterSuffix

def add (f : Family) (labels : List String) (value : Binary64) : Family :=
  { f with samples := f.samples ++ [⟨f.sampleName, f.labels.zip labels, value⟩] }

/-! ## The families of a pass -/

/-- The label values of a record: its node, where the collector has labels. -/
def labelValues (cache : DescriptorCache) (r : Record) : List String :=
  if cache.labels.isEmpty then [] else [r.node]

/-- The records are added to the families of their names. The cache keeps what it
met even if a family has no name. -/
def collectFrom (cache : DescriptorCache) (families : Keyed Family) :
    List Record → Option (List Family) × DescriptorCache
  | [] => (some (families.entries.map Prod.snd), cache)
  | r :: rs =>
    match families.get? r.name with
    | some f => collectFrom cache (families.insert r.name (f.add (labelValues cache r) r.value)) rs
    | none =>
      let (d, cache) := cache.request r.name r.kind
      match ofDescriptor? d with
      | none => (none, cache)
      | some f => collectFrom cache (families.insert r.name (f.add (labelValues cache r) r.value)) rs

def collect (cache : DescriptorCache) (records : List Record) :
    Option (List Family) × DescriptorCache :=
  collectFrom cache .empty records

end Family

end NodeMemory
