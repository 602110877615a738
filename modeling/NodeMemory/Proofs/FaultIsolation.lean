import NodeMemory.Proofs.CacheTransparency
import NodeMemory.Proofs.Channels
import NodeMemory.Proofs.JsonTexts
import NodeMemory.Proofs.Sessions
/-!
# Collectors do not touch each other

What a scrape shows of a collector is its outcome, what its event says beside the time, and its
families (`Visit.view?`). All of it comes from the collector's own source: two sessions in which
that source reads the same show the same of the collector, scrape by scrape, whatever else differs
(`collectors_isolated`). Only a time that cannot be told in milliseconds takes the whole scrape
with it (`not_showAlike_endless`).
-/

namespace NodeMemory

/-! ## What a scrape shows of a collector -/

/-- The name of the collector that an event is about. -/
def Event.collector? (e : Event) : Option String :=
  match Entries.find? "collector" e.fields with
  | some (.string name) => some name
  | _ => none

/-- What the line of an event says, beside how long something took. -/
def Event.saying (version : String) (now : Timestamp) (e : Event) : List (String × Json) :=
  (e.members version now).filter fun m => m.1 ≠ "elapsed_ms"

/-- What is about one subject in a scrape. -/
structure View where
  results : List (Except CollectorFault (List Record))
  sayings : List (List (String × Json))
  families : List Family

/-- Families tell their subject by their labels. Of a scrape that is given up nothing is seen. -/
def Visit.view? (v : Visit) (s : Subject) (now : Timestamp) : Option View :=
  match v.pass.outcomes, v.scrape.families with
  | .ok outcomes, .ok families => some {
      results := outcomes.filterMap fun o => if o.subject = s then some o.result else none
      sayings := (v.scrape.events.filter fun event => event.collector? = some s.name).map
        (Event.saying v.exporter.version now)
      families := families.filter fun f => f.labels = s.labels }
  | _, _ => none

/-- Two scrapes show the same of a subject: one outcome, one event and the families. -/
def Visit.ShowAlike (s : Subject) (v w : Visit) : Prop :=
  ∀ now, ∃ result saying families,
    v.view? s now = some ⟨[result], [saying], families⟩ ∧ w.view? s now = some ⟨[result], [saying], families⟩

/-! ## Sources that read the same -/

theorem Source.read_table {file : Path} {m m' : Machine} (h : m.files.read file = m'.files.read file) :
    (Source.table file).read m = (Source.table file).read m' := by
  simp only [Source.read, Source.readTable, h]

namespace Numa

/-- The same node directories are found in two trees, and each of their tables has the same
bytes in both or cannot be opened for the same reason. -/
def Alike (root : Path) (t t' : FileTree) : Prop :=
  discover t root = discover t' root ∧ ∀ ds, discover t root = .ok ds → ∀ d ∈ ds,
    t.read (d.child "meminfo") = t'.read (d.child "meminfo") ∧
    t.read (d.child "numastat") = t'.read (d.child "numastat")

theorem readNodes_congr {t t' : FileTree} {ds : List Path}
    (h : ∀ d ∈ ds, t.read (d.child "meminfo") = t'.read (d.child "meminfo") ∧
      t.read (d.child "numastat") = t'.read (d.child "numastat")) : readNodes t ds = readNodes t' ds := by
  induction ds with
  | nil => rfl
  | cons d ds ih =>
    obtain ⟨hd, hds⟩ := List.forall_mem_cons.1 h
    have hnode : readNode t d = readNode t' d := by simp only [readNode, hd.1, hd.2]
    rw [readNodes, readNodes, hnode, ih hds]

theorem Alike.read_eq {root : Path} {t t' : FileTree} (h : Alike root t t') : read t root = read t' root := by
  unfold read
  rw [← h.1]
  cases hd : discover t root with
  | error fault => rfl
  | ok ds => exact readNodes_congr (h.2 ds hd)

end Numa

theorem Source.read_nodes {root : Path} {m m' : Machine} (h : Numa.Alike root m.files m'.files) :
    (Source.nodes root).read m = (Source.nodes root).read m' := by
  simp only [Source.read, h.read_eq]

namespace Collector

variable {c : Collector} {m m' : Machine}

theorem read_congr (h : c.source.read m = c.source.read m') : c.read m = c.read m' := by
  simp only [Collector.read, h]

theorem scrape_congr (h : c.source.read m = c.source.read m') : c.scrape m = c.scrape m' := by
  simp only [Collector.scrape, read_congr h]

/-! ## One scrape -/

theorem collector?_of_tells {event : Event} (h : c.Tells m event) : event.collector? = some c.name := by
  unfold Tells at h
  cases hr : (c.read m).result with
  | error fault =>
    rw [hr] at h
    subst h
    rfl
  | ok records =>
    rw [hr] at h
    obtain ⟨ms, rfl⟩ := h
    rfl

/-- Beside the time, an event says what the reading came to. -/
theorem saying_of_tells {event event' : Event} (h : c.Tells m event) (h' : c.Tells m' event')
    (hr : (c.read m).result = (c.read m').result) (version : String) (now : Timestamp) :
    event.saying version now = event'.saying version now := by
  unfold Tells at h h'
  rw [← hr] at h'
  cases hres : (c.read m).result with
  | error fault =>
    rw [hres] at h h'
    rw [h, h']
  | ok records =>
    rw [hres] at h h'
    obtain ⟨ms, rfl⟩ := h
    obtain ⟨ms', rfl⟩ := h'
    simp [Event.saying, Event.members, Event.shorten, Entries.insert]

theorem Sound.labels_scrape {scope : String} (hc : Sound scope c) {f : Family}
    (hf : f ∈ (c.scrape m).1.getD []) : f.labels = c.subject.labels := by
  rw [hc.scrape_eq, Option.getD_some] at hf
  obtain ⟨name, hn, rfl⟩ := List.mem_map.1 hf
  obtain ⟨r, hr, rfl⟩ := List.mem_map.1 (List.mem_eraseDups.1 hn)
  have hmet := hc.met (fits_records m c)
  have hd := hmet.descriptor_eq (DescriptorCache.isSome_get?_after c.cache hr)
  show ((c.met (c.records m)).cache.descriptor r.name).labels = _
  rw [hd]
  exact hmet.labels_eq

end Collector

theorem Subject.labels_injective {s t : Subject} (h : s.labels = t.labels) : s = t := by
  cases s <;> cases t <;> first | rfl | cases h

namespace Exporter

/-- Of collectors with distinct subjects, one is of a given subject. -/
theorem filter_subject {cs : List Collector} (h : (cs.map Collector.subject).Nodup) {c : Collector} (hc : c ∈ cs) :
    cs.filter (fun c' => c'.subject = c.subject) = [c] := by
  induction cs with
  | nil => cases hc
  | cons c' cs ih =>
    obtain ⟨hn, hcs⟩ := List.nodup_cons.1 h
    rcases List.mem_cons.1 hc with rfl | hc
    · have hnone : cs.filter (fun c' => c'.subject = c.subject) = [] := by
        refine List.filter_eq_nil_iff.2 fun d hd he => hn ?_
        exact List.mem_map.2 ⟨d, hd, of_decide_eq_true he⟩
      rw [List.filter_cons_of_pos (by simp), hnone]
    · have hne : ¬ c'.subject = c.subject := fun he => hn (he ▸ List.mem_map_of_mem hc)
      rw [List.filter_cons_of_neg (by simpa using hne), ih hcs hc]

/-- Where each part is kept or dropped as a whole, so are the parts of the whole list. -/
theorem filter_flatMap_eq {α β : Type} {part : α → List β} {p : α → Bool} {q : β → Bool} {l : List α}
    (h : ∀ x ∈ l, ∀ y ∈ part x, q y = p x) : (l.flatMap part).filter q = (l.filter p).flatMap part := by
  induction l with
  | nil => rfl
  | cons x l ih =>
    obtain ⟨hx, hl⟩ := List.forall_mem_cons.1 h
    rw [List.flatMap_cons, List.filter_append, ih hl]
    cases hp : p x with
    | true =>
      rw [List.filter_cons_of_pos hp, List.flatMap_cons, List.filter_eq_self.2 fun y hy => (hx y hy).trans hp]
    | false =>
      have hnone : (part x).filter q = [] := List.filter_eq_nil_iff.2 fun y hy => by simp [hx y hy, hp]
      rw [List.filter_cons_of_neg (by simp [hp]), hnone, List.nil_append]

section Views
variable {config : Config} {version : String}

/-- The families of a subject are those of its collector. -/
theorem Sound.filter_families {e : Exporter} (h : Sound config version e) {c : Collector} (hc : c ∈ e.collectors)
    (m : Machine) (clock : Clock) :
    (e.memory m ++
      [e.durations (outcomesOf m clock e.collectors), e.successes (outcomesOf m clock e.collectors)]).filter
        (fun f => f.labels = c.subject.labels) = (c.scrape m).1.getD [] := by
  have hmemory : (e.memory m).filter (fun f => f.labels = c.subject.labels) = (c.scrape m).1.getD [] := by
    rw [memory, filter_flatMap_eq (p := fun c' => c'.subject = c.subject), filter_subject h.nodup_subjects hc,
      List.flatMap_singleton]
    intro c' hc' f hf
    rw [(h.collectors c' hc').labels_scrape hf]
    exact decide_eq_decide.2 ⟨Subject.labels_injective, congrArg Subject.labels⟩
  have habout : ["collector"] ≠ c.subject.labels := by cases c.subject <;> decide
  rw [List.filter_append, hmemory, durations, successes, collectorGauge_eq, collectorGauge_eq]
  simp [habout]

/-- What a scrape shows of the subject of a collector comes from that collector. -/
theorem Sound.view?_eq {v : Visit} (h : Sound config version v.exporter)
    (ht : Tellable (outcomesOf v.machine v.clock v.exporter.collectors)) {c : Collector}
    (hc : c ∈ v.exporter.collectors) :
    ∃ event, c.Tells v.machine event ∧ ∀ now, v.view? c.subject now =
      some ⟨[(c.read v.machine).result], [event.saying version now], (c.scrape v.machine).1.getD []⟩ := by
  have hone := filter_subject h.nodup_subjects hc
  -- One outcome is of the subject
  have hresult : (outcomesOf v.machine v.clock v.exporter.collectors).filterMap
      (fun o => if o.subject = c.subject then some o.result else none) = [(c.read v.machine).result] := by
    rw [filterMap_outcomesOf fun s result => if s = c.subject then some result else none]
    have := List.filterMap_filter (p := fun c' : Collector => decide (c'.subject = c.subject))
      (f := fun c' => some (c'.read v.machine).result) (l := v.exporter.collectors)
    simp only [decide_eq_true_eq] at this
    rw [← this, hone]
    rfl
  -- and one event
  have hevent : List.Forall₂ (Collector.Tells v.machine) [c]
      (v.scrape.events.filter fun event => event.collector? = some c.subject.name) := by
    have hcompleted : ∀ outcomes, (completed outcomes).collector? = none := fun _ => rfl
    rw [Visit.scrape, h.scrape_eq ht, List.filter_append, List.filter_cons_of_neg (by simp [hcompleted]),
      List.filter_nil, List.append_nil, ← hone]
    refine List.rel_filter (fun c' event htells => ?_) (forall₂_tells ht)
    simp only [Collector.collector?_of_tells htells, decide_eq_true_iff, Option.some_inj]
    exact ⟨congrArg Subject.name, fun he => Subject.name_injective he⟩
  obtain ⟨event, rest, htells, hrest, hevents⟩ := List.forall₂_cons_left_iff.1 hevent
  cases hrest
  refine ⟨event, htells, fun now => ?_⟩
  have ho : v.pass.outcomes = .ok (outcomesOf v.machine v.clock v.exporter.collectors) := (turns_of_tellable ht).1
  have hf : v.scrape.families = .ok (v.exporter.memory v.machine ++
      [v.exporter.durations (outcomesOf v.machine v.clock v.exporter.collectors),
        v.exporter.successes (outcomesOf v.machine v.clock v.exporter.collectors)]) := by
    rw [Visit.scrape, h.scrape_eq ht]
  simp only [Visit.view?, ho, hf, hresult, hevents, h.filter_families hc, h.version_eq]
  rfl

/-- The step: two scrapes in which a collector's source reads the same show the same of it. -/
theorem Sound.showAlike {config' : Config} {v w : Visit} (hv : Sound config version v.exporter)
    (hw : Sound config' version w.exporter) (htv : Tellable (outcomesOf v.machine v.clock v.exporter.collectors))
    (htw : Tellable (outcomesOf w.machine w.clock w.exporter.collectors)) {c : Collector}
    (hcv : c ∈ v.exporter.collectors) (hcw : c ∈ w.exporter.collectors)
    (hm : c.source.read v.machine = c.source.read w.machine) : Visit.ShowAlike c.subject v w := by
  intro now
  obtain ⟨event, ht, hview⟩ := hv.view?_eq htv hcv
  obtain ⟨event', ht', hview'⟩ := hw.view?_eq htw hcw
  have hr : c.read v.machine = c.read w.machine := Collector.read_congr hm
  refine ⟨_, _, _, hview now, ?_⟩
  rw [hview' now, hr, Collector.scrape_congr hm, Collector.saying_of_tells ht ht' (by rw [hr])]

/-- The run: what two sessions show of a collector is the same, as long as its source reads the
same in both. -/
theorem Sound.sessions_showAlike {config' : Config} {e e' : Exporter} (h : Sound config version e)
    (h' : Sound config' version e') {source : Source} (hfixed : ∀ m, (source.read m).2.2 = source) {c : Collector}
    (hs : c.source = source) (hc : c ∈ e.collectors) (hc' : c ∈ e'.collectors) {clock clock' : Clock}
    {ms ms' : List Machine} (ht : clock.Tells (ms.length * e.collectors.length))
    (ht' : clock'.Tells (ms'.length * e'.collectors.length))
    (hms : List.Forall₂ (fun m m' => source.read m = source.read m') ms ms') :
    List.Forall₂ (Visit.ShowAlike source.subject) (session e clock ms) (session e' clock' ms') := by
  induction hms generalizing c e e' clock clock' with
  | nil => exact .nil
  | @cons m m' ms ms' hm hms ih =>
    obtain ⟨htell, he, hclock, hothers⟩ := h.next m ht
    obtain ⟨htell', he', hclock', hothers'⟩ := h'.next m' ht'
    have hread : c.source.read m = c.source.read m' := hs ▸ hm
    have hstep := Sound.showAlike (v := ⟨e, m, clock⟩) (w := ⟨e', m', clock'⟩) h h' htell htell' hc hc' hread
    -- Both sessions go on with the same collector.
    have hnext : c.afterScrapes [m] = c.afterScrapes [m'] := congrArg Prod.snd (Collector.scrape_congr hread)
    have hsource : (c.afterScrapes [m]).source = source :=
      (Collector.source_afterScrapes_of_fixed (h.collectors c hc) (hs ▸ hfixed) [m]).trans hs
    rw [session, session, he, hclock, he', hclock']
    exact .cons (hs ▸ hstep) (ih (h.afterScrapes [m]) (h'.afterScrapes [m']) hsource (List.mem_map_of_mem hc)
      (hnext ▸ List.mem_map_of_mem hc') hothers hothers')

/-- **Fault isolation.** Two sessions in which the memory table has the same bytes in each scrape,
or cannot be opened for the same reason, show the same of the machine's collector in all scrapes;
two sessions in which the same node directories are found, with the same tables, show the same of
the nodes' collector. Whether the other collector is enabled, what it reads and whether it
fails, and how the clocks go, makes no difference. -/
theorem collectors_isolated {config config' : Config} {e e' : Exporter} (he : ofConfig config version = .ok e)
    (he' : ofConfig config' version = .ok e') (hscope : config.scope = config'.scope) {clock clock' : Clock}
    {ms ms' : List Machine} (ht : clock.Tells (ms.length * e.collectors.length))
    (ht' : clock'.Tells (ms'.length * e'.collectors.length)) :
    (config.platform ≠ Config.nativePlatform → config'.platform ≠ Config.nativePlatform →
      config.procRoot = config'.procRoot → config.isEnabled .machine → config'.isEnabled .machine →
      List.Forall₂ (fun m m' => m.files.read config.memoryTable = m'.files.read config.memoryTable) ms ms' →
      List.Forall₂ (Visit.ShowAlike .machine) (session e clock ms) (session e' clock' ms')) ∧
    (config.systemRoot = config'.systemRoot → config.isEnabled .nodes → config'.isEnabled .nodes →
      List.Forall₂ (fun m m' => Numa.Alike config.systemRoot m.files m'.files) ms ms' →
      List.Forall₂ (Visit.ShowAlike .nodes) (session e clock ms) (session e' clock' ms')) := by
  have h := sound_ofConfig he
  have h' := sound_ofConfig he'
  constructor
  · intro hp hp' hroot hon hon' hms
    have hsource : (Collector.ofConfig config .machine).source = .table config.memoryTable := if_neg hp
    have hsame : Collector.ofConfig config .machine = Collector.ofConfig config' .machine := by
      simp only [Collector.ofConfig, Source.ofConfig, if_neg hp, if_neg hp', Config.memoryTable, Config.procFile, hroot,
        hscope]
    exact h.sessions_showAlike h' (fun _ => rfl) hsource ((mem_collectors he).2 ⟨_, hon, rfl⟩)
      ((mem_collectors he').2 ⟨_, hon', hsame⟩) ht ht' (hms.imp fun _ _ hm => Source.read_table hm)
  · intro hroot hon hon' hms
    have hsame : Collector.ofConfig config .nodes = Collector.ofConfig config' .nodes := by
      simp only [Collector.ofConfig, Source.ofConfig, hroot, hscope]
    exact h.sessions_showAlike h' (fun _ => rfl) rfl ((mem_collectors he).2 ⟨_, hon, rfl⟩)
      ((mem_collectors he').2 ⟨_, hon', hsame⟩) ht ht' (hms.imp fun _ _ hm => Source.read_nodes hm)

end Views

/-! ## Sessions to look at -/

theorem alike_nodeAlone : Numa.Alike bothEnabled.systemRoot nodeAlone.files tableAndNode.files := by
  have hfound : Numa.discover nodeAlone.files bothEnabled.systemRoot =
      .ok [.ofText "/sys/devices/system/node/node0"] := by decide +kernel
  refine ⟨by decide +kernel, fun ds hds => ?_⟩
  rw [hfound, Except.ok.injEq] at hds
  subst hds
  decide +kernel

/-- What is seen of the machine's collector is the same with the nodes' collector and without it,
and what is seen of the nodes' collector is the same whether the memory table comes or goes. -/
theorem collectors_isolated_bothFresh :
    List.Forall₂ (Visit.ShowAlike .machine) (session bothFresh seconds [nodeAlone, tableAndNode])
      (session tableFresh frozen [⟨.empty [], none⟩, Collector.tableAlone "MemTotal: 2 kB\nMemFree: 1 kB\n"]) ∧
    List.Forall₂ (Visit.ShowAlike .nodes) (session bothFresh seconds [nodeAlone, tableAndNode])
      (session bothFresh frozen [tableAndNode, tableAndNode]) := by
  have hboth : ofConfig bothEnabled "0.1.0" = .ok bothFresh := rfl
  have htable : ofConfig (.default "linux") "0.1.0" = .ok tableFresh := rfl
  have ht : seconds.Tells ([nodeAlone, tableAndNode].length * bothFresh.collectors.length) := tells_seconds
  constructor
  · refine (collectors_isolated hboth htable rfl ht (tells_frozen _)).1 (by decide) (by decide) rfl (by decide)
      (by decide) ?_
    exact .cons (by decide +kernel) (.cons (by decide +kernel) .nil)
  · refine (collectors_isolated hboth hboth rfl ht (tells_frozen _)).2 rfl (by decide) (by decide) ?_
    exact .cons alike_nodeAlone (.cons ⟨rfl, fun _ _ _ _ => ⟨rfl, rfl⟩⟩ .nil)

/-- Of a turn that takes longer than milliseconds can tell nothing is seen, though its time is
finite, and the same table is read as by another clock. -/
theorem not_showAlike_endless :
    ofConfig (.default "linux") "0.1.0" = .ok tableFresh ∧
    (∀ j < 1, (seconds.lap j).IsFinite) ∧ (∀ j < 1, (endless.lap j).IsFinite) ∧
    ¬ List.Forall₂ (Visit.ShowAlike .machine) (session tableFresh seconds [Collector.tableAlone "MemFree: 2 kB\n"])
      (session tableFresh endless [Collector.tableAlone "MemFree: 2 kB\n"]) := by
  refine ⟨rfl, by decide +kernel, by decide +kernel, fun h => ?_⟩
  obtain ⟨hshow, -⟩ := List.forall₂_cons.1 h
  obtain ⟨_, _, _, -, hview⟩ := hshow ⟨2024, 1, 2, 3, 4, 5, 0⟩
  have hnone : (Visit.view? ⟨tableFresh, Collector.tableAlone "MemFree: 2 kB\n", endless⟩ .machine
      ⟨2024, 1, 2, 3, 4, 5, 0⟩).isNone := by decide +kernel
  rw [hview] at hnone
  cases hnone

end Exporter

end NodeMemory
