import NodeMemory.Collector
import NodeMemory.Exposition
import NodeMemory.Report
/-!
# The exporter

An exporter runs its collectors in turn. A pass gives one outcome and one event for
each; a collector that fails stops no other. From the outcomes come the families of
a scrape, or a report. A scrape is a pass that goes all the way to the exposition
text, and tells at its end which collectors failed.
-/

namespace NodeMemory

structure Exporter where
  collectors : List Collector
  /-- What the names of all metrics begin with. -/
  scope : String
  version : String

namespace Exporter

def ofConfig (c : Config) (version : String) : Except ConfigFault Exporter :=
  c.subjects.map fun subjects => ⟨subjects.map (.ofConfig c), c.scope, version⟩

/-! ## Passes -/

/-- What a pass did: the outcomes, or why it was given up; the events and the native
calls up to its end; and the collectors and the clock afterwards. -/
structure Pass where
  outcomes : Except PassFault (List Outcome)
  events : List Event
  calls : List Native.Call
  collectors : List Collector
  clock : Clock

/-- A pass that goes on after a turn that was told. -/
def Pass.after (turn : Turn) (event : Event) (rest : Pass) : Pass where
  outcomes := rest.outcomes.map (turn.outcome :: ·)
  events := event :: rest.events
  calls := turn.calls ++ rest.calls
  collectors := turn.collector :: rest.collectors
  clock := rest.clock

/-- The turns of collectors, one after another. A pass is given up at an outcome
that cannot be told. -/
def turns (m : Machine) (clock : Clock) : List Collector → Pass
  | [] => ⟨.ok [], [], [], [], clock⟩
  | c :: cs =>
    let turn := c.turn m clock
    match turn.outcome.event with
    | .ok event => (turns m turn.clock cs).after turn event
    | .error fault => ⟨.error fault, [], turn.calls, turn.collector :: cs, turn.clock⟩

def pass (e : Exporter) (m : Machine) (clock : Clock) : Pass := turns m clock e.collectors

/-- The names of the collectors that failed, in ascending order. -/
def failed (outcomes : List Outcome) : List String :=
  Sorting.sortTexts ((outcomes.filter fun o => !o.succeeded).map fun o => o.subject.name)

/-! ## Families -/

/-- The families of the collectors that succeeded, and the collectors with all
descriptors met. Outcomes are given in the order of the collectors. -/
def memoryFamilies : List Collector → List Outcome → Option (List Family) × List Collector
  | c :: cs, o :: os =>
    match c.families o.result with
    | (none, c) => (none, c :: cs)
    | (some families, c) =>
      let (later, cs) := memoryFamilies cs os
      (later.map (families ++ ·), c :: cs)
  | cs, _ => (some [], cs)

/-- A gauge with one value for every collector. -/
def collectorGauge (e : Exporter) (name documentation : String) (value : Outcome → Binary64)
    (outcomes : List Outcome) : Family :=
  outcomes.foldl (fun f o => f.add [o.subject.name] (value o))
    ⟨Record.qualifiedName [e.scope, "scrape", name], documentation, .gauge, ["collector"], []⟩

/-- How long each collector took, in seconds. -/
def durations (e : Exporter) (outcomes : List Outcome) : Family :=
  e.collectorGauge "collector_duration_seconds" "Duration of a collector scrape." Outcome.elapsed outcomes

/-- One for every collector that succeeded, zero for the others. -/
def successes (e : Exporter) (outcomes : List Outcome) : Family :=
  e.collectorGauge "collector_success" "Whether a collector succeeded."
    (fun o => Binary64.ofNat (if o.succeeded then 1 else 0)) outcomes

/-- All families of a pass, and the exporter afterwards. -/
def families (e : Exporter) (outcomes : List Outcome) : Except PassFault (List Family) × Exporter :=
  let (memory, collectors) := memoryFamilies e.collectors outcomes
  let all :=
    match memory with
    | some memory => .ok (memory ++ [e.durations outcomes, e.successes outcomes])
    | none => .error .unnamedFamily
  (all, { e with collectors := collectors })

/-! ## Scrapes -/

/-- What a scrape did, as a pass, and its families. -/
structure Scrape where
  families : Except PassFault (List Family)
  events : List Event
  calls : List Native.Call
  exporter : Exporter
  clock : Clock

def completed (outcomes : List Outcome) : Event :=
  ⟨.scrapeCompleted,
    [("collectors", .integer outcomes.length), ("failed", .array ((failed outcomes).map .string))]⟩

def scrape (e : Exporter) (m : Machine) (clock : Clock) : Scrape :=
  let p := e.pass m clock
  let e := { e with collectors := p.collectors }
  match p.outcomes with
  | .error fault => ⟨.error fault, p.events, p.calls, e, p.clock⟩
  | .ok outcomes =>
    match e.families outcomes with
    | (.error fault, e) => ⟨.error fault, p.events, p.calls, e, p.clock⟩
    | (.ok families, e) => ⟨.ok families, p.events ++ [completed outcomes], p.calls, e, p.clock⟩

/-! ## Reports -/

/-- The records of each subsystem that was read. -/
def readSubsystems (outcomes : List Outcome) : Keyed (List Record) :=
  .ofList (outcomes.filterMap fun o => o.result.toOption.map fun records => (o.subject.subsystem, records))

def report (e : Exporter) (platform : String) (outcomes : List Outcome) : Json :=
  Report.document (readSubsystems outcomes)
    [("exporter_version", .string e.version), ("platform", .string platform),
      ("failed", .array ((failed outcomes).map .string))]

end Exporter

end NodeMemory
