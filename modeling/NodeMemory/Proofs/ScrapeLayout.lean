import NodeMemory.Proofs.Channels
import NodeMemory.Proofs.Sessions
/-!
# The layout of a scrape

The families of a scrape stand in a fixed order: those of the collectors that succeed, one
collector after another, then how long each collector took, then which of them succeeded. A
turn takes two readings of the clock whether the collector succeeds or fails, so the readings of
any turn of a session are known by its number (`scrapes_laid_out`).
-/

namespace NodeMemory

/-- The collector succeeds, and these are the families of its records. -/
def Collector.Builds (m : Machine) (c : Collector) (families : List Family) : Prop :=
  ∃ records, (c.read m).result = .ok records ∧ (Family.collect c.cache records).1 = some families

namespace Exporter

/-- A gauge about collectors, with one sample for each of them. -/
def aboutCollectors (scope about documentation : String) (values : List (String × Binary64)) : Family where
  name := Record.qualifiedName [scope, "scrape", about]
  documentation := documentation
  kind := .gauge
  labels := ["collector"]
  samples := values.map fun (collector, x) =>
    ⟨Record.qualifiedName [scope, "scrape", about], [("collector", collector)], x⟩

/-- How a scrape is laid out, where `lap j` is how long collector `j` took. -/
structure LaidOut (config : Config) (lap : Nat → Binary64) (v : Visit) : Prop where
  /-- The collectors are those that the configuration enables, in the order of a pass. -/
  subjects : v.exporter.collectors.map Collector.subject = Subject.all.filter config.isEnabled
  /-- The families of those that succeed come first, and then the two about all of them. -/
  families : ∃ parts : List (List Family),
    List.Forall₂ (Collector.Builds v.machine) (v.exporter.collectors.filter fun c => !c.fails v.machine) parts ∧
    v.scrape.families = .ok (parts.flatten ++
      [aboutCollectors config.scope "collector_duration_seconds" "Duration of a collector scrape."
        (v.exporter.collectors.mapIdx fun j c => (c.name, lap j)),
      aboutCollectors config.scope "collector_success" "Whether a collector succeeded."
        (v.exporter.collectors.map fun c => (c.name, Binary64.ofNat (if c.fails v.machine then 0 else 1)))])

/-! ## The families about the collectors -/

theorem durations_outcomesOf (e : Exporter) (m : Machine) (clock : Clock) (cs : List Collector) :
    e.durations (outcomesOf m clock cs) =
      aboutCollectors e.scope "collector_duration_seconds" "Duration of a collector scrape."
        (cs.mapIdx fun j c => (c.name, clock.lap j)) := by
  rw [durations, collectorGauge_eq, outcomesOf, map_mapIdx, aboutCollectors, map_mapIdx]
  rfl

theorem successes_outcomesOf (e : Exporter) (m : Machine) (clock : Clock) (cs : List Collector) :
    e.successes (outcomesOf m clock cs) =
      aboutCollectors e.scope "collector_success" "Whether a collector succeeded."
        (cs.map fun c => (c.name, Binary64.ofNat (if c.fails m then 0 else 1))) := by
  have hs := samples_successes e m clock cs
  rw [successes, collectorGauge_eq] at hs ⊢
  dsimp only at hs
  rw [hs, aboutCollectors, List.map_map]
  rfl

/-! ## The families of the collectors -/

theorem builds_scrape {scope : String} {m : Machine} {c : Collector} (hc : c.Sound scope)
    (h : (!c.fails m) = true) : c.Builds m ((c.scrape m).1.getD []) := by
  unfold Collector.fails at h
  cases hr : (c.read m).result with
  | error fault => simp [hr, Except.toOption] at h
  | ok records =>
    refine ⟨records, hr, ?_⟩
    have hs : (Family.collect c.cache records).1 = (c.scrape m).1 := by
      rw [Collector.scrape, hr]
      rfl
    rw [hs, hc.scrape_eq m, Option.getD_some]

theorem scrape_of_fails {m : Machine} {c : Collector} (h : c.fails m = true) : (c.scrape m).1 = some [] := by
  unfold Collector.fails at h
  rw [Collector.scrape]
  cases hr : (c.read m).result with
  | error fault => rfl
  | ok records => simp [hr, Except.toOption] at h

/-- A collector that fails has no families. -/
theorem memory_eq (m : Machine) (cs : List Collector) :
    cs.flatMap (fun c => (c.scrape m).1.getD []) =
      ((cs.filter fun c => !c.fails m).map fun c => (c.scrape m).1.getD []).flatten := by
  induction cs with
  | nil => rfl
  | cons c cs ih =>
    rw [List.flatMap_cons, List.filter_cons, ih]
    cases h : c.fails m with
    | true => rw [scrape_of_fails h]; rfl
    | false => rfl

/-- Whatever scrape it is, its families are laid out. -/
theorem Sound.laidOut {config : Config} {version : String} {v : Visit} (h : Sound config version v.exporter)
    (ht : Tellable (outcomesOf v.machine v.clock v.exporter.collectors)) : LaidOut config v.clock.lap v := by
  refine ⟨h.subjects_eq,
    (v.exporter.collectors.filter fun c => !c.fails v.machine).map fun c => (c.scrape v.machine).1.getD [], ?_, ?_⟩
  · refine List.forall₂_map_right_iff.2 (List.forall₂_same.2 fun c hc => ?_)
    obtain ⟨hc, hs⟩ := List.mem_filter.1 hc
    exact builds_scrape (h.collectors c hc) hs
  · rw [Visit.scrape, h.scrape_eq ht, durations_outcomesOf, successes_outcomesOf, h.scope_eq, memory, memory_eq]

/-- **The layout of all scrapes of a session.** There is one scrape for each machine, in their
order, and it is laid out. Collector `j` of scrape `i` took as long as there is between the two
readings of its turn, which is turn `i * k + j` of the session where `k` collectors are enabled,
whatever became of it and of the turns before. -/
theorem scrapes_laid_out {config : Config} {version : String} {e : Exporter} (h : ofConfig config version = .ok e)
    {clock : Clock} {ms : List Machine} (ht : clock.Tells (ms.length * e.collectors.length)) :
    (session e clock ms).map Visit.machine = ms ∧
    ∀ i v, (session e clock ms)[i]? = some v →
      LaidOut config (fun j => (clock.reading (2 * (i * e.collectors.length + j) + 1)).sub
        (clock.reading (2 * (i * e.collectors.length + j)))) v := by
  have hs := sound_ofConfig h
  refine ⟨machines_session e clock ms, fun i v hv => ?_⟩
  obtain ⟨hsound, htell⟩ := hs.mem_session ht (List.mem_of_getElem? hv)
  rw [hs.session_eq ht, List.getElem?_mapIdx, Option.map_eq_some_iff] at hv
  obtain ⟨m, -, rfl⟩ := hv
  -- The clock of the scrape has been read twice in each turn before it.
  have hlap : (fun j => (clock.reading (2 * (i * e.collectors.length + j) + 1)).sub
      (clock.reading (2 * (i * e.collectors.length + j)))) = (clock.after (i * e.collectors.length)).lap := by
    funext j
    rw [Clock.lap_after, Clock.lap_eq]
  rw [hlap]
  exact hsound.laidOut htell

/-- The machine's collector fails in the first scrape of this session, and the second scrape
begins with reading 4 all the same. -/
theorem scrapes_laid_out_bothFresh :
    bothFresh.collectors.map (Collector.fails nodeAlone) = [true, false] ∧
    ∃ v, (session bothFresh seconds [nodeAlone, tableAndNode])[1]? = some v ∧ v.machine = tableAndNode ∧
      LaidOut bothEnabled
        (fun j => (seconds.reading (2 * (1 * 2 + j) + 1)).sub (seconds.reading (2 * (1 * 2 + j)))) v := by
  have he : ofConfig bothEnabled "0.1.0" = .ok bothFresh := rfl
  have ht : seconds.Tells ([nodeAlone, tableAndNode].length * bothFresh.collectors.length) := tells_seconds
  obtain ⟨-, hl⟩ := scrapes_laid_out he ht
  exact ⟨by decide +kernel, _, rfl, rfl, hl 1 _ rfl⟩

end Exporter

end NodeMemory
