import NodeMemory.Clock
import NodeMemory.Config
import NodeMemory.Event
import NodeMemory.Family
import NodeMemory.Meminfo
import NodeMemory.Native.Source
import NodeMemory.Numa
/-!
# Collectors

A collector reads the records of its subject from a source and keeps the
descriptors of its metrics. Its turn in a pass always has an outcome: the records or
what went wrong, and the time it took. Whatever goes wrong while reading is told as
the subject's failure; a reading whose records are not valid is told by their flaw.
-/

namespace NodeMemory

/-- What collectors read from. -/
structure Machine where
  files : FileTree
  library : Option Native.Library

/-- Where a collector gets its figures. -/
inductive Source where
  /-- The memory table of the machine. -/
  | table (file : Path)
  /-- The native library. -/
  | native (source : Native.Source)
  /-- The node directories below a system root. -/
  | nodes (root : Path)
  deriving DecidableEq, Repr

namespace Source

def subject : Source → Subject
  | table _ => .machine
  | native _ => .machine
  | nodes _ => .nodes

/-- The source of a subject under a configuration. -/
def ofConfig (c : Config) : Subject → Source
  | .machine => if c.platform = Config.nativePlatform then .native .fresh else .table c.memoryTable
  | .nodes => .nodes c.systemRoot

/-- The figures of a machine's memory table. -/
def readTable (t : FileTree) (file : Path) : Except Fault (Keyed Binary64) := do
  Meminfo.readFile (.ofBytes (← t.read file))

/-- The records of a source, the native calls made for them, and the source
afterwards. -/
def read (m : Machine) : Source → Except Fault (List Record) × List Native.Call × Source
  | table file => ((readTable m.files file).map Record.ofFigures, [], table file)
  | native source =>
    let (figures, calls, source) := source.read m.library
    (figures.map Record.ofFigures, calls, native source)
  | nodes root => (Numa.read m.files root, [], nodes root)

end Source

/-! ## Readings -/

/-- Why a collector has no records. -/
inductive CollectorFault where
  | failed (subject : Subject) (cause : Fault)
  | invalid (flaw : Record.Flaw)
  deriving DecidableEq, Repr

namespace CollectorFault

def message : CollectorFault → String
  | failed subject cause => subject.failureLead ++ cause.message
  | invalid flaw => flaw.message

/-- The name of the kind of fault. -/
def kindName : CollectorFault → String
  | failed _ _ => "CollectorError"
  | invalid _ => "ValueError"

end CollectorFault

structure Collector where
  source : Source
  cache : DescriptorCache

/-- The records of a collector or why there are none, the native calls made for
them, and the collector afterwards. -/
structure Reading where
  result : Except CollectorFault (List Record)
  calls : List Native.Call
  collector : Collector

namespace Collector

/-- A collector that has read nothing. -/
def ofConfig (c : Config) (s : Subject) : Collector where
  source := .ofConfig c s
  cache := .fresh c.scope s.subsystem s.labels

def subject (c : Collector) : Subject := c.source.subject

def name (c : Collector) : String := c.subject.name

/-- Records are let through only if they are valid together. -/
def validate (records : List Record) : Except CollectorFault (List Record) :=
  match Record.check records with
  | .ok () => .ok records
  | .error flaw => .error (.invalid flaw)

/-- A reading does not touch the descriptors. -/
def read (m : Machine) (c : Collector) : Reading :=
  let (records, calls, source) := c.source.read m
  let result :=
    match records with
    | .ok records => validate records
    | .error cause => .error (.failed c.subject cause)
  ⟨result, calls, { c with source := source }⟩

end Collector

/-! ## Turns -/

/-- What came of a collector's turn, and how many seconds it took. -/
structure Outcome where
  subject : Subject
  result : Except CollectorFault (List Record)
  elapsed : Binary64

/-- Why a pass has to be given up. -/
inductive PassFault where
  | elapsedInfinite
  | elapsedUndefined
  | unnamedFamily
  deriving DecidableEq, Repr

def PassFault.message : PassFault → String
  | elapsedInfinite => "cannot convert float infinity to integer"
  | elapsedUndefined => "cannot convert float NaN to integer"
  | unnamedFamily => Family.unnamed

namespace Outcome

def succeeded (o : Outcome) : Bool := o.result.toOption.isSome

/-- Seconds as whole milliseconds. -/
def milliseconds (seconds : Binary64) : Except PassFault Int :=
  match (seconds.mul (Binary64.ofNat 1000)).whole with
  | .integer n => .ok n
  | .ofInfinity => .error .elapsedInfinite
  | .ofNan => .error .elapsedUndefined

/-- The event of an outcome. Only a success tells its time. -/
def event (o : Outcome) : Except PassFault Event :=
  match o.result with
  | .ok records =>
    (milliseconds o.elapsed).map fun ms =>
      ⟨.collectorSucceeded,
        [("collector", .string o.subject.name), ("records", .integer records.length), ("elapsed_ms", .integer ms)]⟩
  | .error fault =>
    .ok ⟨.collectorFailed,
      [("collector", .string o.subject.name), ("error_type", .string fault.kindName),
        ("message", .string fault.message)]⟩

end Outcome

/-- A turn: its outcome, the native calls, the collector and the clock afterwards. -/
structure Turn where
  outcome : Outcome
  calls : List Native.Call
  collector : Collector
  clock : Clock

namespace Collector

/-- The clock is read before and after the records. -/
def turn (m : Machine) (clock : Clock) (c : Collector) : Turn :=
  let (start, clock) := clock.read
  let reading := c.read m
  let (stop, clock) := clock.read
  ⟨⟨c.subject, reading.result, stop.sub start⟩, reading.calls, reading.collector, clock⟩

/-- The families of a reading's result, and the collector with the descriptors it
met. A reading without records has no families. -/
def families (c : Collector) : Except CollectorFault (List Record) → Option (List Family) × Collector
  | .error _ => (some [], c)
  | .ok records =>
    let (families, cache) := Family.collect c.cache records
    (families, { c with cache := cache })

end Collector

end NodeMemory
