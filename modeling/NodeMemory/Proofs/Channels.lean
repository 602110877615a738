import NodeMemory.Proofs.Deliveries
import NodeMemory.Proofs.Reports
/-!
# All channels tell of the same failures

A failure shows in five places that are worked out apart from each other: the events of
the pass, the samples about the collectors, the status of the program, the report, and
the event at the end of a scrape. `channels_agree`: all of them name the collectors whose
reading fails, whatever the machine, the collectors and the scrapes before.
-/

namespace NodeMemory

/-- An event tells of a collector's reading: of its records, and how long they took, or
why there are none. -/
def Collector.Tells (m : Machine) (c : Collector) (event : Event) : Prop :=
  match (c.read m).result with
  | .ok records => ∃ ms : Int, event = ⟨.collectorSucceeded,
      [("collector", .string c.name), ("records", .integer records.length), ("elapsed_ms", .integer ms)]⟩
  | .error fault => event = ⟨.collectorFailed,
      [("collector", .string c.name), ("error_type", .string fault.kindName), ("message", .string fault.message)]⟩

namespace Exporter

/-- The collectors whose reading fails. -/
def failing (e : Exporter) (m : Machine) : List Collector := e.collectors.filter (Collector.fails m)

/-- The names of the collectors whose reading fails, in ascending order. -/
def failingNames (e : Exporter) (m : Machine) : List String :=
  Sorting.sortTexts ((e.failing m).map Collector.name)

/-- The name of the samples that tell which collectors succeeded. -/
def successName (e : Exporter) : String := Record.qualifiedName [e.scope, "scrape", "collector_success"]

/-- What a pass of an exporter tells, on every way it does. -/
structure ChannelsAgree (e : Exporter) (s : Program.Surroundings) : Prop where
  /-- One event for each collector, in their order. -/
  events : List.Forall₂ (Collector.Tells s.machine) e.collectors (e.pass s.machine s.clock).events
  /-- Among all samples of the pass, one for each collector: zero where it fails. -/
  successes : ∃ outcomes families after, (e.pass s.machine s.clock).outcomes = .ok outcomes ∧
    ({ e with collectors := (e.pass s.machine s.clock).collectors } : Exporter).families outcomes =
      (.ok families, after) ∧
    (families.flatMap Family.samples).filter (fun x => x.name = e.successName) = e.collectors.map fun c =>
      ⟨e.successName, [("collector", c.name)], Binary64.ofNat (if c.fails s.machine then 0 else 1)⟩
  /-- In both formats the program ends with status 1 if a collector fails and 0 if not; to
  the standard output always, and to a file unless that cannot be written. -/
  exits : ∀ format output,
    (Program.oneshot s e format output).ending = .exit (if e.failing s.machine = [] then 0 else 1) ∨
    (output ≠ Setting.standardOutput ∧ ∃ fault, (Program.oneshot s e format output).ending = .fault (.output fault))
  /-- A report names the collectors that fail, and has the records of the others alone. If the
  program comes to its end, the text of the report and the end of a line are on the standard
  output, or in the file. -/
  report : ∃ report : Json,
    (∀ output, Program.oneshot s e .json output = Program.deliver s (e.pass s.machine s.clock).events output
      (report.render ++ "\n") (if e.failing s.machine = [] then 0 else 1)) ∧
    (∀ output code, (Program.oneshot s e .json output).ending = .exit code →
      Program.Gives output (report.render ++ "\n") (Program.oneshot s e .json output)) ∧
    (report.member? "meta").bind (Json.member? "failed") = some (.array ((e.failingNames s.machine).map .string)) ∧
    (report.member? "records").map Json.memberNames =
      some ((e.collectors.filter fun c => !c.fails s.machine).map fun c => c.subject.subsystem)
  /-- A scrape ends its events with one that counts the collectors and names those that
  fail. -/
  completed : (e.scrape s.machine s.clock).events = (e.pass s.machine s.clock).events ++ [⟨.scrapeCompleted,
    [("collectors", .integer e.collectors.length), ("failed", .array ((e.failingNames s.machine).map .string))]⟩]

/-! ## Events -/

theorem tells_of_event {m : Machine} {c : Collector} {o : Outcome} {event : Event} (hs : o.subject = c.subject)
    (hr : o.result = (c.read m).result) (he : o.event = .ok event) : c.Tells m event := by
  unfold Outcome.event at he
  unfold Collector.Tells
  rw [hs, hr] at he
  cases h : (c.read m).result with
  | error fault =>
    rw [h] at he
    exact (Except.ok.inj he).symm
  | ok records =>
    rw [h] at he
    obtain ⟨ms, -, rfl⟩ := map_eq_ok_iff.1 he
    exact ⟨ms, rfl⟩

/-- A pass that goes through tells of each collector's reading. -/
theorem forall₂_tells {m : Machine} {clock : Clock} {cs : List Collector} (h : Tellable (outcomesOf m clock cs)) :
    List.Forall₂ (Collector.Tells m) cs (turns m clock cs).events := by
  have he := (turns_of_tellable h).2.1
  generalize (turns m clock cs).events = events at he
  induction cs generalizing clock events with
  | nil =>
    cases he
    exact .nil
  | cons c cs ih =>
    rw [outcomesOf_cons] at he h
    cases he with
    | cons h1 h2 => exact .cons (tells_of_event rfl rfl h1) (ih (List.forall_mem_cons.1 h).2 _ h2)

section Channels
variable {config : Config} {version : String} {e : Exporter}

/-! ## Samples -/

theorem Sound.successName_eq (h : Sound config version e) :
    e.successName = Record.qualifiedName [config.scope, "scrape", "collector_success"] := by
  rw [successName, h.scope_eq]

/-- No sample about memory is taken for one about a collector's success. -/
theorem Sound.memory_ne_successName (h : Sound config version e) (m : Machine) :
    ∀ x ∈ (e.memory m).flatMap Family.samples, x.name ≠ e.successName := by
  intro x hx
  rw [(h.memory_perm m).mem_iff] at hx
  obtain ⟨c, -, hx⟩ := List.mem_flatMap.1 hx
  obtain ⟨r, hr, rfl⟩ := List.mem_map.1 hx
  rw [h.successName_eq]
  exact c.subject.qualifiedName_ne_scrape config.scope ((Collector.fits_records m c).1.names r hr).1 (by decide)

theorem durations_ne_successName (e : Exporter) (outcomes : List Outcome) :
    ∀ x ∈ (e.durations outcomes).samples, x.name ≠ e.successName := by
  intro x hx
  rw [durations, samples_collectorGauge] at hx
  obtain ⟨o, -, rfl⟩ := List.mem_map.1 hx
  intro he
  dsimp only [successName] at he
  rw [Record.qualifiedName_eq_lead e.scope (by decide) (by decide),
    Record.qualifiedName_eq_lead e.scope (by decide) (by decide), String.append_right_inj] at he
  exact absurd he (by decide)

/-- One sample for each collector: zero where it fails, and one where not. -/
theorem samples_successes (e : Exporter) (m : Machine) (clock : Clock) (cs : List Collector) :
    (e.successes (outcomesOf m clock cs)).samples = cs.map fun c =>
      ⟨e.successName, [("collector", c.name)], Binary64.ofNat (if c.fails m then 0 else 1)⟩ := by
  rw [successes, samples_collectorGauge]
  induction cs generalizing clock with
  | nil => rfl
  | cons c cs ih =>
    rw [outcomesOf_cons, List.map_cons, List.map_cons, ih, succeeded_turn]
    congr 2
    cases c.fails m <;> rfl

/-- Among all samples of a pass those of the last family alone tell of success. -/
theorem Sound.filter_successes (h : Sound config version e) (m : Machine) (clock : Clock) :
    ((e.memory m ++
        [e.durations (outcomesOf m clock e.collectors), e.successes (outcomesOf m clock e.collectors)]).flatMap
          Family.samples).filter (fun x => x.name = e.successName) =
      e.collectors.map fun c =>
        ⟨e.successName, [("collector", c.name)], Binary64.ofNat (if c.fails m then 0 else 1)⟩ := by
  have hm : ((e.memory m).flatMap Family.samples).filter
      (fun x => x.name = e.successName) = [] :=
    List.filter_eq_nil_iff.2 fun x hx => by simpa using h.memory_ne_successName m x hx
  have hd : (e.durations (outcomesOf m clock e.collectors)).samples.filter (fun x => x.name = e.successName) = [] :=
    List.filter_eq_nil_iff.2 fun x hx => by simpa using e.durations_ne_successName _ x hx
  have hs : ∀ x ∈ (e.successes (outcomesOf m clock e.collectors)).samples, x.name = e.successName := by
    intro x hx
    rw [samples_successes] at hx
    obtain ⟨c, -, rfl⟩ := List.mem_map.1 hx
    rfl
  rw [List.flatMap_append, List.filter_append, hm, List.nil_append, List.flatMap_cons, List.filter_append, hd,
    List.nil_append, List.flatMap_singleton, List.filter_eq_self.2 fun x hx => by simpa using hs x hx]
  exact samples_successes e m clock e.collectors

/-! ## The program's end -/

theorem status_outcomesOf (e : Exporter) (m : Machine) (clock : Clock) :
    Program.status (outcomesOf m clock e.collectors) = if e.failing m = [] then 0 else 1 := by
  unfold Program.status failing
  simp only [all_succeeded_outcomesOf]

/-- One pass gives out a text in either format, and its status tells whether a collector
fails. -/
theorem Sound.oneshot_eq (h : Sound config version e) {s : Program.Surroundings}
    (ht : Tellable (outcomesOf s.machine s.clock e.collectors)) (format : Format) :
    ∃ text, Program.payload { e with collectors := (e.pass s.machine s.clock).collectors } s.platform.name format
        (outcomesOf s.machine s.clock e.collectors) = .ok text ∧
      ∀ output, Program.oneshot s e format output = Program.deliver s (e.pass s.machine s.clock).events output text
        (if e.failing s.machine = [] then 0 else 1) := by
  have ho : (e.pass s.machine s.clock).outcomes = .ok (outcomesOf s.machine s.clock e.collectors) :=
    (turns_of_tellable ht).1
  -- A report can always be given out, and a text because all families have names.
  obtain ⟨text, hp⟩ : ∃ text, Program.payload { e with collectors := (e.pass s.machine s.clock).collectors }
      s.platform.name format (outcomesOf s.machine s.clock e.collectors) = .ok text := by
    cases format with
    | json => exact ⟨_, rfl⟩
    | text => exact ⟨_, by rw [Program.payload, h.families_eq ht]; rfl⟩
  refine ⟨text, hp, fun output => ?_⟩
  simp only [Program.oneshot, ho, Except.bind, hp, Except.map, status_outcomesOf]

/-! ## All channels -/

/-- Whatever scrapes there were before and whatever the machine, a pass whose times can
be told in milliseconds goes over the enabled collectors in order, and everything that is
told of it tells of the same failures. -/
theorem channels_agree (he : Served config version e) (s : Program.Surroundings)
    (hclock : ∀ j < e.collectors.length, ∃ ms, Outcome.milliseconds (s.clock.lap j) = .ok ms) :
    e.collectors.map Collector.subject = Subject.all.filter config.isEnabled ∧ ChannelsAgree e s := by
  have h := he.sound
  have ht := tellable_of_laps (m := s.machine) hclock
  refine ⟨h.subjects_eq, forall₂_tells ht, ?_, ?_, ?_, ?_⟩
  · -- The zeros and ones
    exact ⟨_, _, _, (turns_of_tellable ht).1, h.families_eq ht, h.filter_successes s.machine s.clock⟩
  · -- The program's end
    intro format output
    obtain ⟨text, -, hd⟩ := h.oneshot_eq ht format
    rw [hd output]
    exact Program.ending_deliver s _ output text _
  · -- The report
    obtain ⟨text, hp, hd⟩ := h.oneshot_eq ht .json
    cases hp
    refine ⟨_, hd, fun output code hend => ?_, report_failed _ _ _ _ _, report_subsystems _ _ _ _ h.nodup_subjects⟩
    rw [hd output] at hend ⊢
    exact Program.gives_deliver hend
  · -- The end of a scrape
    rw [h.scrape_eq ht]
    simp only [completed, length_outcomesOf, failed_outcomesOf]
    rfl

end Channels

/-- The program with a host that says nothing of itself. -/
def quietly (m : Machine) (clock : Clock) : Program.Surroundings :=
  ⟨m, clock, ⟨2024, 1, 2, 3, 4, 5, 0⟩, [], ⟨"linux", "", "", "", ""⟩, false⟩

/-- Where there are nodes and no memory table, all channels name the one collector. -/
theorem channels_agree_nodeAlone :
    bothFresh.failingNames nodeAlone = ["meminfo"] ∧ ChannelsAgree bothFresh (quietly nodeAlone seconds) := by
  have h := channels_agree served_bothFresh (quietly nodeAlone seconds) fun j hj => ⟨1000, milliseconds_seconds j hj⟩
  exact ⟨rfl, h.2⟩

end Exporter

end NodeMemory
