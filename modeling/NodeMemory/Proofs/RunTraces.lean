import NodeMemory.Proofs.CacheTransparency
import NodeMemory.Proofs.Channels
import NodeMemory.Proofs.JsonTexts
import NodeMemory.Proofs.Sessions
/-!
# What a run tells

A run that serves scrapes until something ends it tells first that it starts and last that it
stops, and in between of every scrape: of the reading of each collector, and then of the scrape
(`run_traced`). So it is whatever the machine and however the service ends, unless a scrape is given
up; and a configuration that is not fit is told in no event at all.
-/

namespace NodeMemory

/-- These events tell of a scrape: one for each collector that the configuration enables, in the
order of a pass, and one at the end. -/
structure Visit.Told (config : Config) (v : Visit) (events : List Event) : Prop where
  subjects : v.exporter.collectors.map Collector.subject = Subject.all.filter config.isEnabled
  events : ∃ readings, List.Forall₂ (Collector.Tells v.machine) v.exporter.collectors readings ∧
    events = readings ++ [⟨.scrapeCompleted, [("collectors", .integer v.exporter.collectors.length),
      ("failed", .array ((v.exporter.failingNames v.machine).map .string))]⟩]

/-- The text is what a scrape gives out. -/
def Visit.Gives (v : Visit) (text : String) : Prop :=
  ∃ families, v.scrape.families = .ok families ∧ text = Exposition.render families

theorem Exporter.Sound.told {config : Config} {version : String} {v : Visit} (h : Sound config version v.exporter)
    (ht : Tellable (outcomesOf v.machine v.clock v.exporter.collectors)) : v.Told config v.scrape.events := by
  refine ⟨h.subjects_eq, v.pass.events, forall₂_tells ht, ?_⟩
  rw [Visit.scrape, h.scrape_eq ht]
  simp only [completed, length_outcomesOf, failed_outcomesOf]
  rfl

namespace Program

/-! ## Serving -/

/-- The machine as it is at each of the scrapes. -/
def scraped (m : Machine) : List Happening → List Machine
  | [] => []
  | .change m :: rest => scraped m rest
  | .scrape :: rest => m :: scraped m rest

/-- What a service without a given-up scrape comes to: its scrapes are those of a session. -/
theorem serve_eq {config : Config} {version : String} {e : Exporter} (h : Exporter.Sound config version e) {m : Machine}
    {clock : Clock} {happenings : List Happening}
    (ht : clock.Tells ((scraped m happenings).length * e.collectors.length)) :
    (serve m clock e happenings).fault = none ∧
    (serve m clock e happenings).events =
      ((e.session clock (scraped m happenings)).map fun v => v.scrape.events).flatten ∧
    List.Forall₂ Visit.Gives (e.session clock (scraped m happenings)) (serve m clock e happenings).scrapes := by
  induction happenings generalizing m e clock with
  | nil => exact ⟨rfl, rfl, .nil⟩
  | cons happening rest ih =>
    cases happening with
    | change m' => exact ih h ht
    | scrape =>
      obtain ⟨htell, he, hc, hothers⟩ := h.next m ht
      obtain ⟨families, hf⟩ : ∃ families, (e.scrape m clock).families = .ok families :=
        ⟨_, by rw [h.scrape_eq htell]⟩
      obtain ⟨h1, h2, h3⟩ := ih (h.afterScrapes [m]) hothers
      simp only [serve, hf, he, hc, Serving.after, scraped, Exporter.session, h1, h2]
      exact ⟨trivial, rfl, .cons ⟨families, hf, rfl⟩ h3⟩

/-! ## The end of a service -/

theorem ServiceEnd.ending_broken {e : ServiceEnd} {text : String}
    (h : e = .failed 32 text ∨ e = .raised (.server 32 text)) : e.ending = .exit 1 := by
  rcases h with rfl | rfl <;> rfl

theorem ServiceEnd.ending_raised {fault : ProgramFault} (h : ∀ text, fault ≠ .server 32 text) :
    (raised fault).ending = .fault fault := by
  cases fault with
  | server number text =>
    have hnumber : number ≠ brokenPipe := fun hn => h text (hn ▸ rfl)
    exact if_neg hnumber
  | noRuntimeVersion => rfl
  | pass fault => rfl
  | output fault => rfl

theorem ServiceEnd.ending_failed {number : Int} {text : String} (h : number ≠ 32) :
    (failed number text).ending = .fault (.server number text) := if_neg h

/-! ## Whole runs -/

/-- What a run of an exporter tells and how it ends, where it serves these scrapes. -/
structure Traced (config : Config) (service : Service) (scrapes : List Visit) (t : Transcript) : Prop where
  /-- It starts, tells of every scrape, and stops. -/
  events : ∃ parts, List.Forall₂ (Visit.Told config) scrapes parts ∧
    t.events = ⟨.exporterStart, [("listen_address", .string config.listenAddress), ("port", .integer config.port),
        ("collectors", .array (config.enabledNames.map .string)), ("platform", .string config.platform)]⟩ ::
      parts.flatten ++ [⟨.exporterShutdown, []⟩]
  /-- All scrapes are served. -/
  served : ∃ texts, List.Forall₂ Visit.Gives scrapes texts ∧
    t.served = some ⟨config.listenAddress, config.port, texts, service.ending = .interrupted⟩
  /-- An interruption is absorbed and ends it well. -/
  interrupted : service.ending = .interrupted → t.ending = .exit 0
  /-- A broken pipe, which is error 32 of the server, is let through as well; the command line takes it for
  status 1, for nobody is left to be told of it. -/
  broken : ∀ text, service.ending = .failed 32 text ∨ service.ending = .raised (.server 32 text) → t.ending = .exit 1
  /-- Any other error of the server is let through, -/
  failed : ∀ number text, number ≠ 32 → service.ending = .failed number text → t.ending = .fault (.server number text)
  /-- and so is every other fault. -/
  raised : ∀ fault, (∀ text, fault ≠ .server 32 text) → service.ending = .raised fault → t.ending = .fault fault

/-- **The trace of a run.** Whatever the configuration, if the collectors can be made and the
time of every turn can be told in milliseconds, a run tells that it starts, of every scrape in
its order, and that it stops, however the service ends. If they cannot be made, nothing is told
and nothing is served. -/
theorem run_traced (s : Surroundings) (service : Service) (config : Config) :
    (∀ e, Exporter.ofConfig config version = .ok e →
      s.clock.Tells ((scraped s.machine service.happenings).length * e.collectors.length) →
      Traced config service (e.session s.clock (scraped s.machine service.happenings))
        (withExporter s config (run s service config))) ∧
    ∀ fault, Exporter.ofConfig config version = .error fault →
      (withExporter s config (run s service config)).events = [] ∧
      (withExporter s config (run s service config)).served = none ∧
      (withExporter s config (run s service config)).ending = .usage (.unfit fault) := by
  constructor
  · intro e he ht
    have h := Exporter.sound_ofConfig he
    obtain ⟨hfault, hevents, htexts⟩ := serve_eq h ht
    have hrun : withExporter s config (run s service config) = run s service config e := by
      rw [withExporter, he]
    have hend : (run s service config e).ending = service.ending.ending := by simp only [run, hfault]
    rw [hrun]
    refine ⟨⟨(e.session s.clock (scraped s.machine service.happenings)).map fun v => v.scrape.events, ?_, ?_⟩,
      ⟨_, htexts, ?_⟩, ?_, ?_, ?_, ?_⟩
    · refine List.forall₂_map_right_iff.2 (List.forall₂_same.2 fun v hv => ?_)
      obtain ⟨hv, hvt⟩ := h.mem_session ht hv
      exact hv.told hvt
    · simp only [run, hevents, started, stopped]
    · simp only [run, hfault, Option.isNone_none, Bool.true_and]
    · intro hi
      rw [hend, hi]
      rfl
    · intro text h
      rw [hend, ServiceEnd.ending_broken h]
    · intro number text hn h
      rw [hend, h, ServiceEnd.ending_failed hn]
    · intro fault hf h
      rw [hend, h, ServiceEnd.ending_raised hf]
  · intro fault he
    rw [withExporter, he]
    exact ⟨rfl, rfl, rfl⟩

/-! ## Runs to look at -/

def askedToServe : List String := ["run", "--collector-meminfo-numa"]

/-- The configuration of a run with both collectors. -/
def bothServed : Config := config "linux" ⟨"/proc", "/sys", true, true⟩

/-- A memory table comes up between two scrapes, and then the server fails. -/
def tableComes : Service := ⟨[.scrape, .change Exporter.tableAndNode, .scrape], .failed 5 "Input/output error"⟩

/-- The same run where there are no node directories. -/
def unserved : Config := config "freebsd" ⟨"/proc", "/sys", true, true⟩

theorem run_traced_tableComes :
    Traced bothServed tableComes
      (Exporter.bothFresh.session Exporter.seconds [Exporter.nodeAlone, Exporter.tableAndNode])
      (transcript (Exporter.quietly Exporter.nodeAlone Exporter.seconds) tableComes askedToServe) ∧
    (withExporter (Exporter.quietly Exporter.nodeAlone Exporter.seconds) unserved
      (run (Exporter.quietly Exporter.nodeAlone Exporter.seconds) tableComes unserved)).events = [] := by
  have hw : Request.ofWords [] askedToServe = .ok (.run ⟨"/proc", "/sys", true, true⟩ "0.0.0.0" 9100) := by
    decide +kernel
  have he : Exporter.ofConfig bothServed version = .ok Exporter.bothFresh := rfl
  have ht := (run_traced (Exporter.quietly Exporter.nodeAlone Exporter.seconds) tableComes bothServed).1 _ he
    Exporter.tells_seconds
  have hu : Exporter.ofConfig unserved version = .error (.unsupported "freebsd" ["meminfo_numa"]) := rfl
  refine ⟨?_, ((run_traced (Exporter.quietly Exporter.nodeAlone Exporter.seconds) tableComes unserved).2 _ hu).1⟩
  rw [transcript, Exporter.quietly, hw]
  exact ht

/-- The one turn of a collector takes longer than milliseconds can tell. -/
def endlessTurn : Surroundings := Exporter.quietly (Collector.tableAlone "MemFree: 2 kB\n") Exporter.endless

def oneScrape : Service := ⟨[.scrape], .interrupted⟩

/-- A scrape with such a turn is given up, and the run tells nothing of it. -/
theorem not_traced_endlessTurn :
    Exporter.ofConfig (.default "linux") version = .ok Exporter.tableFresh ∧
    (∀ j < 1, (endlessTurn.clock.lap j).IsFinite) ∧
    (withExporter endlessTurn (.default "linux") (run endlessTurn oneScrape (.default "linux"))).events.map Event.kind =
      [.exporterStart, .exporterShutdown] ∧
    ¬ Traced (.default "linux") oneScrape
      (Exporter.tableFresh.session endlessTurn.clock (scraped endlessTurn.machine oneScrape.happenings))
      (withExporter endlessTurn (.default "linux") (run endlessTurn oneScrape (.default "linux"))) := by
  have hkinds : (withExporter endlessTurn (.default "linux")
      (run endlessTurn oneScrape (.default "linux"))).events.map Event.kind = [.exporterStart, .exporterShutdown] := by
    decide +kernel
  refine ⟨rfl, by decide +kernel, hkinds, fun h => ?_⟩
  obtain ⟨parts, hparts, hevents⟩ := h.events
  obtain ⟨part, rest, hpart, hrest, rfl⟩ := List.forall₂_cons_left_iff.1 hparts
  obtain ⟨readings, -, rfl⟩ := hpart.events
  -- The end of the scrape would be a third event.
  rw [hevents] at hkinds
  have hlength := congrArg List.length hkinds
  simp at hlength
  omega

end Program

end NodeMemory
