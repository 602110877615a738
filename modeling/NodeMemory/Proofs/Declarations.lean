import NodeMemory.Proofs.ExpositionLines
import NodeMemory.Proofs.RecordInvariant
import NodeMemory.Proofs.Reports
/-!
# Metrics that are declared once

The uniqueness of records is looked after by their names, the exposition text has other names. In
the text of a scrape no two lines declare one metric if and only if the names of its records stay
apart when they are written, over both subjects together; and no two lines have one sample if and
only if they stay apart for every node of a subject (`declared_once_iff`). The metrics about the
collectors are never in the way.
-/

namespace NodeMemory

open Exposition

/-- Labels tell the subject and the node. -/
theorem Subject.labels_sample_eq_iff {s t : Subject} {scope : String} {a b : Record} (ha : s.Admits a)
    (hb : t.Admits b) : (s.sample scope a).labels = (t.sample scope b).labels ↔ s = t ∧ a.node = b.node := by
  cases s with
  | machine =>
    cases t with
    | machine => simp [sample, ha.1, hb.1]
    | nodes => simp [sample]
  | nodes =>
    cases t with
    | machine => simp [sample]
    | nodes => simp [sample]

/-! ## The families of a subject -/

namespace Collector

variable {scope : String} {c : Collector}

theorem fits_name (m : Machine) (c : Collector) {r : Record} (hr : r ∈ c.records m) : Exposition.Fits r.name := by
  have hname := ((fits_records m c).1.names r hr).1
  unfold records at hr
  cases h : (c.read m).result with
  | error fault => simp [h, Except.toOption] at hr
  | ok records =>
    simp only [h, Except.toOption, Option.getD_some] at hr
    refine fits_of_notMem hname fun hc => ?_
    exact absurd (Source.unbroken_of_read (read_eq_ok_iff.1 h).1 r hr _ hc) (by decide)

theorem areLabels_sample (s : Subject) (scope : String) (r : Record) : AreLabels (s.sample scope r).labels := by
  cases s with
  | machine => exact .none
  | nodes => exact .one r.node (by simp)

/-- A family of a scrape has the full name of its records, and samples that fit on lines. -/
theorem Sound.whole_familyOf (hc : Sound scope c) (m : Machine) {name : String}
    (hn : name ∈ (c.records m).map Record.name) :
    (Family.familyOf (c.cache.after (c.records m)) (c.records m) name).sampleName =
        Record.qualifiedName [scope, c.subject.subsystem, name] ∧
      Whole (Family.familyOf (c.cache.after (c.records m)) (c.records m) name) := by
  have hmet : Sound scope (c.met (c.records m)) := hc.met (fits_records m c)
  have hknown {a : Record} (ha : a ∈ c.records m) := DescriptorCache.isSome_get?_after c.cache ha
  obtain ⟨r, hr, rfl⟩ := List.mem_map.1 hn
  have hname : (Family.familyOf (c.cache.after (c.records m)) (c.records m) r.name).sampleName =
      Record.qualifiedName [scope, c.subject.subsystem, r.name] :=
    hmet.writtenName_eq (hknown hr) (fits_name m c hr).ne_empty
  refine ⟨hname, ?_, ?_⟩
  · rw [hname]
    exact (fits_name m c hr).qualifiedName scope c.subject.subsystem_ne_empty
  · intro s hs
    obtain ⟨a, ha, rfl⟩ := List.mem_map.1 hs
    obtain ⟨ha, he⟩ := List.mem_filter.1 ha
    have he : a.name = r.name := by simpa using he
    have hsample : Family.sampleIn (c.cache.after (c.records m)) a = c.subject.sample scope a :=
      hmet.sampleIn_eq (hknown ha) (fits_name m c ha).ne_empty
    rw [hname, hsample, ← he]
    exact ⟨rfl, areLabels_sample c.subject scope a⟩

theorem Sound.whole_scrape (hc : Sound scope c) (m : Machine) : ∀ f ∈ (c.scrape m).1.getD [], Whole f := by
  rw [hc.scrape_eq]
  intro f hf
  obtain ⟨name, hn, rfl⟩ := List.mem_map.1 hf
  exact (hc.whole_familyOf m (List.mem_eraseDups.1 hn)).2

theorem Sound.sampleNames_scrape (hc : Sound scope c) (m : Machine) :
    ((c.scrape m).1.getD []).map Family.sampleName =
      ((c.records m).map Record.name).eraseDups.map fun name =>
        Record.qualifiedName [scope, c.subject.subsystem, name] := by
  rw [hc.scrape_eq, Option.getD_some, Family.grouped, List.map_map]
  exact List.map_congr_left fun name hn => (hc.whole_familyOf m (List.mem_eraseDups.1 hn)).1

end Collector

/-! ## All families of a scrape -/

namespace Exporter

variable {config : Config} {version : String} {e : Exporter} {m : Machine} {clock : Clock}

/-- What the families about memory are of: a subject and a name of its records. -/
def declared (e : Exporter) (m : Machine) : List (Subject × String) :=
  e.collectors.flatMap fun c => ((c.records m).map Record.name).eraseDups.map (Prod.mk c.subject)

/-- What the samples about memory are of: a subject and a record. -/
def drawn (e : Exporter) (m : Machine) : List (Subject × Record) :=
  e.collectors.flatMap fun c => (c.records m).map (Prod.mk c.subject)

theorem mem_declared {s : Subject} {name : String} :
    (s, name) ∈ e.declared m ↔ ∃ c ∈ e.collectors, c.subject = s ∧ ∃ r ∈ c.records m, r.name = name := by
  simp only [declared, List.mem_flatMap, List.mem_map, List.mem_eraseDups, Prod.mk.injEq]
  constructor
  · rintro ⟨c, hc, n, ⟨r, hr, rfl⟩, rfl, rfl⟩
    exact ⟨c, hc, rfl, r, hr, rfl⟩
  · rintro ⟨c, hc, rfl, r, hr, rfl⟩
    exact ⟨c, hc, r.name, ⟨r, hr, rfl⟩, rfl, rfl⟩

theorem mem_drawn {s : Subject} {r : Record} :
    (s, r) ∈ e.drawn m ↔ ∃ c ∈ e.collectors, c.subject = s ∧ r ∈ c.records m := by
  simp only [drawn, List.mem_flatMap, List.mem_map, Prod.mk.injEq]
  constructor
  · rintro ⟨c, hc, r, hr, rfl, rfl⟩
    exact ⟨c, hc, rfl, hr⟩
  · rintro ⟨c, hc, rfl, hr⟩
    exact ⟨c, hc, r, hr, rfl, rfl⟩

/-- What is of distinct subjects is distinct. -/
theorem nodup_flatMap_subject {β : Type} {cs : List Collector} {part : Collector → List β}
    (hcs : (cs.map Collector.subject).Nodup) (hp : ∀ c ∈ cs, (part c).Nodup) :
    (cs.flatMap fun c => (part c).map (Prod.mk c.subject)).Nodup := by
  rw [List.nodup_flatMap]
  constructor
  · intro c hc
    exact (hp c hc).map (Prod.mk_right_injective c.subject)
  · refine (List.pairwise_map.1 hcs).imp fun {c d} hne x hx hy => ?_
    obtain ⟨a, -, rfl⟩ := List.mem_map.1 hx
    obtain ⟨b, -, he⟩ := List.mem_map.1 hy
    exact hne (congrArg Prod.fst he).symm

theorem Sound.nodup_declared (h : Sound config version e) (m : Machine) : (e.declared m).Nodup :=
  nodup_flatMap_subject h.nodup_subjects fun _ _ => nodup_eraseDups _

theorem Sound.nodup_drawn (h : Sound config version e) (m : Machine) : (e.drawn m).Nodup :=
  nodup_flatMap_subject h.nodup_subjects fun c _ => List.Nodup.of_map _ (c.fits_records m).1.keys

/-- The two metrics about the collectors. -/
def gaugeName (scope about : String) : String := Record.qualifiedName [scope, "scrape", about]

theorem sampleName_collectorGauge (e : Exporter) (name documentation : String) (value : Outcome → Binary64)
    (outcomes : List Outcome) :
    (e.collectorGauge name documentation value outcomes).sampleName = gaugeName e.scope name := by
  rw [collectorGauge_eq]
  rfl

theorem whole_collectorGauge (e : Exporter) {name : String} (hn : Exposition.Fits name) (documentation : String)
    (value : Outcome → Binary64) (outcomes : List Outcome) :
    Whole (e.collectorGauge name documentation value outcomes) := by
  refine ⟨?_, ?_⟩
  · rw [sampleName_collectorGauge]
    exact hn.qualifiedName e.scope (by decide)
  · intro s hs
    rw [samples_collectorGauge] at hs
    rw [sampleName_collectorGauge]
    obtain ⟨o, -, rfl⟩ := List.mem_map.1 hs
    exact ⟨rfl, .one o.subject.name (by simp)⟩

/-! ## Names -/

/-- Nothing changes for a list that has none of some other distinct elements. -/
theorem nodup_append_iff {α : Type} {l others : List α} (ho : others.Nodup) (hd : ∀ x ∈ l, x ∉ others) :
    (l ++ others).Nodup ↔ l.Nodup := by
  rw [List.nodup_append']
  exact ⟨fun h => h.1, fun h => ⟨h, ho, hd⟩⟩

/-- No two names of the records are written alike, over both subjects. -/
def NamesApart (e : Exporter) (m : Machine) : Prop :=
  ∀ c ∈ e.collectors, ∀ a ∈ c.records m, ∀ d ∈ e.collectors, ∀ b ∈ d.records m,
    c.subject.shown a.name = d.subject.shown b.name → c.subject = d.subject ∧ a.name = b.name

/-- The name of a metric about memory, as it is written. -/
def writtenName (scope : String) (p : Subject × String) : List Char :=
  (NameClass.metric.write (Record.qualifiedName [scope, p.1.subsystem, p.2])).toList

theorem fits_of_mem_declared {p : Subject × String} (hp : p ∈ e.declared m) : Exposition.Fits p.2 := by
  obtain ⟨s, name⟩ := p
  obtain ⟨c, -, -, r, hr, rfl⟩ := mem_declared.1 hp
  exact c.fits_name m hr

theorem nodup_writtenNames_iff (h : Sound config version e) :
    ((e.declared m).map (writtenName config.scope)).Nodup ↔ e.NamesApart m := by
  have hiff {p q : Subject × String} (hp : p ∈ e.declared m) (hq : q ∈ e.declared m) :
      writtenName config.scope p = writtenName config.scope q ↔ p.1.shown p.2 = q.1.shown q.2 := by
    rw [writtenName, writtenName, String.toList_inj,
      write_eq_iff config.scope (fits_of_mem_declared hp) (fits_of_mem_declared hq)]
  rw [List.nodup_map_iff_inj_on (h.nodup_declared m)]
  constructor
  · intro hinj c hc a ha d hd b hb hs
    have hca : (c.subject, a.name) ∈ e.declared m := mem_declared.2 ⟨c, hc, rfl, a, ha, rfl⟩
    have hdb : (d.subject, b.name) ∈ e.declared m := mem_declared.2 ⟨d, hd, rfl, b, hb, rfl⟩
    simpa using hinj _ hca _ hdb ((hiff hca hdb).2 hs)
  · rintro hapart ⟨s, a⟩ hp ⟨t, b⟩ hq hs
    rw [hiff hp hq] at hs
    obtain ⟨c, hc, rfl, r, hr, rfl⟩ := mem_declared.1 hp
    obtain ⟨d, hd, rfl, r', hr', rfl⟩ := mem_declared.1 hq
    obtain ⟨hsubject, hname⟩ := hapart c hc r hr d hd r' hr' hs
    rw [hsubject, hname]

theorem fits_about : Exposition.Fits "collector_duration_seconds" ∧ Exposition.Fits "collector_success" :=
  ⟨⟨by decide, by decide⟩, ⟨by decide, by decide⟩⟩

theorem Sound.whole_families (h : Sound config version e) (m : Machine) (outcomes : List Outcome) :
    ∀ f ∈ e.memory m ++ [e.durations outcomes, e.successes outcomes], Whole f := by
  intro f hf
  rcases List.mem_append.1 hf with hf | hf
  · obtain ⟨c, hc, hf⟩ := List.mem_flatMap.1 hf
    exact (h.collectors c hc).whole_scrape m f hf
  · simp only [List.mem_cons, List.not_mem_nil, or_false] at hf
    rcases hf with rfl | rfl
    · exact e.whole_collectorGauge fits_about.1 _ _ _
    · exact e.whole_collectorGauge fits_about.2 _ _ _

theorem Sound.memory_names (h : Sound config version e) (m : Machine) :
    (e.memory m).map (fun f => (NameClass.metric.write f.sampleName).toList) =
      (e.declared m).map (writtenName config.scope) := by
  unfold memory declared
  rw [List.map_flatMap, List.map_flatMap]
  refine List.flatMap_congr fun c hc => ?_
  have hn := congrArg (List.map fun name => (NameClass.metric.write name).toList)
    ((h.collectors c hc).sampleNames_scrape m)
  rw [List.map_map, List.map_map] at hn
  rw [List.map_map]
  exact hn

/-- The two metrics about the collectors are written under names of their own. -/
theorem gaugeNames_ne (scope : String) : NameClass.metric.write (gaugeName scope "collector_duration_seconds") ≠
    NameClass.metric.write (gaugeName scope "collector_success") := by
  rw [Ne, gaugeName, gaugeName, write_scrape_eq_iff scope fits_about.1 fits_about.2]
  decide

theorem nodup_typeNames_iff (h : Sound config version e) (outcomes : List Outcome) :
    (typeNames (render (e.memory m ++ [e.durations outcomes, e.successes outcomes]))).Nodup ↔ e.NamesApart m := by
  have hd : (e.durations outcomes).sampleName = gaugeName config.scope "collector_duration_seconds" :=
    h.scope_eq ▸ e.sampleName_collectorGauge _ _ _ _
  have hs : (e.successes outcomes).sampleName = gaugeName config.scope "collector_success" :=
    h.scope_eq ▸ e.sampleName_collectorGauge _ _ _ _
  rw [typeNames_render (h.whole_families m outcomes), List.map_append, h.memory_names m, ← nodup_writtenNames_iff h]
  simp only [List.map_cons, List.map_nil, hd, hs]
  apply nodup_append_iff
  · simpa [String.toList_inj] using gaugeNames_ne config.scope
  · intro x hx
    obtain ⟨p, hp, rfl⟩ := List.mem_map.1 hx
    have hfit := fits_of_mem_declared hp
    simp only [List.mem_cons, List.not_mem_nil, or_false, writtenName, gaugeName, String.toList_inj, not_or]
    exact ⟨write_ne_scrape config.scope p.1 hfit fits_about.1, write_ne_scrape config.scope p.1 hfit fits_about.2⟩

/-! ## Samples -/

/-- No two records of one subject and one node have names that are written alike. -/
def SamplesApart (e : Exporter) (m : Machine) : Prop :=
  ∀ c ∈ e.collectors, ∀ a ∈ c.records m, ∀ b ∈ c.records m,
    a.node = b.node → Record.shown a.name = Record.shown b.name → a.name = b.name

/-- When two samples about memory stand under one text. -/
theorem seriesOf_sample_eq_iff {scope : String} {s t : Subject} {a b : Record} (ha : Exposition.Fits a.name)
    (hb : Exposition.Fits b.name) :
    seriesOf (s.sample scope a) = seriesOf (t.sample scope b) ↔
      s.shown a.name = t.shown b.name ∧ (s.sample scope a).labels = (t.sample scope b).labels := by
  rw [seriesOf_eq_iff (ha.qualifiedName scope s.subsystem_ne_empty) (Collector.areLabels_sample s scope a)
    (hb.qualifiedName scope t.subsystem_ne_empty) (Collector.areLabels_sample t scope b)]
  exact and_congr_left' (write_eq_iff scope ha hb)

theorem series_memory_perm (h : Sound config version e) : ((e.memory m).flatMap fun f => f.samples.map seriesOf).Perm
    ((e.drawn m).map fun p => seriesOf (p.1.sample config.scope p.2)) := by
  have hs := (h.memory_perm m).map seriesOf
  rw [List.map_flatMap, List.map_flatMap] at hs
  rw [drawn, List.map_flatMap]
  simp only [List.map_map] at hs ⊢
  exact hs

theorem admits_of_mem_drawn {p : Subject × Record} (hp : p ∈ e.drawn m) :
    p.1.Admits p.2 ∧ Exposition.Fits p.2.name := by
  obtain ⟨s, r⟩ := p
  obtain ⟨c, -, rfl, hr⟩ := mem_drawn.1 hp
  exact ⟨(c.fits_records m).2 r hr, c.fits_name m hr⟩

theorem nodup_series_memory_iff (h : Sound config version e) :
    ((e.memory m).flatMap fun f => f.samples.map seriesOf).Nodup ↔ e.SamplesApart m := by
  rw [(series_memory_perm h).nodup_iff, List.nodup_map_iff_inj_on (h.nodup_drawn m)]
  have hiff {s t : Subject} {a b : Record} (ha : (s, a) ∈ e.drawn m) (hb : (t, b) ∈ e.drawn m) :
      seriesOf (s.sample config.scope a) = seriesOf (t.sample config.scope b) ↔
        s = t ∧ a.node = b.node ∧ Record.shown a.name = Record.shown b.name := by
    have ha := admits_of_mem_drawn ha
    have hb := admits_of_mem_drawn hb
    rw [seriesOf_sample_eq_iff ha.2 hb.2, Subject.labels_sample_eq_iff ha.1 hb.1]
    constructor
    · rintro ⟨hs, rfl, hn⟩
      exact ⟨rfl, hn, Subject.shown_eq_iff.1 hs⟩
    · rintro ⟨rfl, hn, hs⟩
      exact ⟨Subject.shown_eq_iff.2 hs, rfl, hn⟩
  constructor
  · intro hinj c hc a ha b hb hnode hshown
    have hca : (c.subject, a) ∈ e.drawn m := mem_drawn.2 ⟨c, hc, rfl, ha⟩
    have hcb : (c.subject, b) ∈ e.drawn m := mem_drawn.2 ⟨c, hc, rfl, hb⟩
    exact congrArg (fun p => p.2.name) (hinj _ hca _ hcb ((hiff hca hcb).2 ⟨rfl, hnode, hshown⟩))
  · rintro hapart ⟨s, a⟩ hp ⟨t, b⟩ hq he
    obtain ⟨hst, hnode, hshown⟩ := (hiff hp hq).1 he
    obtain ⟨c, hc, rfl, ha⟩ := mem_drawn.1 hp
    obtain ⟨d, hd, rfl, hb⟩ := mem_drawn.1 hq
    obtain rfl := List.inj_on_of_nodup_map h.nodup_subjects hc hd hst
    have hname := hapart c hc a ha b hb hnode hshown
    have hkey : a.key = b.key := by rw [Record.key, Record.key, hname, hnode]
    have hab := List.inj_on_of_nodup_map (c.fits_records m).1.keys ha hb hkey
    rw [hab]

/-- When two samples about the collectors stand under one text. -/
theorem seriesOf_gauge_eq_iff {scope a b v w : String} {x y : Binary64} (ha : Exposition.Fits a)
    (hb : Exposition.Fits b) :
    seriesOf ⟨gaugeName scope a, [("collector", v)], x⟩ = seriesOf ⟨gaugeName scope b, [("collector", w)], y⟩ ↔
      Record.shown a = Record.shown b ∧ v = w := by
  rw [seriesOf_eq_iff (ha.qualifiedName scope (by decide)) (.one v (by simp)) (hb.qualifiedName scope (by decide))
    (.one w (by simp)), gaugeName, gaugeName, write_scrape_eq_iff scope ha hb]
  simp

theorem seriesOf_sample_ne_gauge {scope about v : String} {s : Subject} {r : Record} {x : Binary64}
    (hr : Exposition.Fits r.name) (ha : Exposition.Fits about) :
    seriesOf (s.sample scope r) ≠ seriesOf ⟨gaugeName scope about, [("collector", v)], x⟩ := by
  rw [Ne, seriesOf_eq_iff (hr.qualifiedName scope s.subsystem_ne_empty) (Collector.areLabels_sample s scope r)
    (ha.qualifiedName scope (by decide)) (.one v (by simp))]
  rintro ⟨hname, -⟩
  exact write_ne_scrape scope s hr ha hname

theorem subjects_outcomesOf (m : Machine) (clock : Clock) (cs : List Collector) :
    (outcomesOf m clock cs).map Outcome.subject = cs.map Collector.subject := by
  induction cs generalizing clock with
  | nil => rfl
  | cons c cs ih =>
    rw [outcomesOf_cons, List.map_cons, List.map_cons, ih]
    rfl

/-- A gauge over the collectors has each of them once. -/
theorem nodup_series_gauge (h : Sound config version e) (m : Machine) (clock : Clock) {about : String}
    (ha : Exposition.Fits about) (value : Outcome → Binary64) :
    ((outcomesOf m clock e.collectors).map fun o =>
      seriesOf ⟨gaugeName config.scope about, [("collector", o.subject.name)], value o⟩).Nodup := by
  have hs : ((outcomesOf m clock e.collectors).map Outcome.subject).Nodup := by
    rw [subjects_outcomesOf]
    exact h.nodup_subjects
  refine List.Nodup.map_on ?_ (List.Nodup.of_map _ hs)
  intro o ho o' ho' he
  exact List.inj_on_of_nodup_map hs ho ho' (Subject.name_injective ((seriesOf_gauge_eq_iff ha ha).1 he).2)

theorem nodup_series_iff (h : Sound config version e) (m : Machine) (clock : Clock) :
    (series (render (e.memory m ++ [e.durations (outcomesOf m clock e.collectors),
      e.successes (outcomesOf m clock e.collectors)]))).Nodup ↔ e.SamplesApart m := by
  rw [series_render (h.whole_families m _), List.flatMap_append, ← nodup_series_memory_iff h]
  simp only [List.flatMap_cons, List.flatMap_nil, List.append_nil, durations, successes, samples_collectorGauge,
    List.map_map, h.scope_eq]
  apply nodup_append_iff
  · refine (List.nodup_append').2
      ⟨nodup_series_gauge h m clock fits_about.1 _, nodup_series_gauge h m clock fits_about.2 _, fun x hx hy => ?_⟩
    obtain ⟨o, -, rfl⟩ := List.mem_map.1 hx
    obtain ⟨o', -, he⟩ := List.mem_map.1 hy
    exact absurd ((seriesOf_gauge_eq_iff fits_about.2 fits_about.1).1 he).1 (by decide)
  · intro x hx hy
    rw [(series_memory_perm h).mem_iff] at hx
    obtain ⟨p, hp, rfl⟩ := List.mem_map.1 hx
    have hfit := (admits_of_mem_drawn hp).2
    rcases List.mem_append.1 hy with hy | hy
    · obtain ⟨o, -, he⟩ := List.mem_map.1 hy
      exact seriesOf_sample_ne_gauge hfit fits_about.1 he.symm
    · obtain ⟨o, -, he⟩ := List.mem_map.1 hy
      exact seriesOf_sample_ne_gauge hfit fits_about.2 he.symm

/-! ## The text of a scrape -/

/-- A scrape that gives families had times that can be told. -/
theorem tellable_of_families {families : List Family} (hf : (e.scrape m clock).families = .ok families) :
    Tellable (outcomesOf m clock e.collectors) := by
  cases ho : (e.pass m clock).outcomes with
  | error fault => simp [scrape, ho] at hf
  | ok outcomes => exact (turns_eq_ok ho).2

/-- In the text of a scrape every metric is declared once if and only if the names of the records
are written apart over both subjects, and every sample stands there once if and only if
those of one subject and node are. -/
theorem declared_once_iff (he : Served config version e) {families : List Family}
    (hf : (e.scrape m clock).families = .ok families) :
    ((typeNames (render families)).Nodup ↔ e.NamesApart m) ∧
      ((series (render families)).Nodup ↔ e.SamplesApart m) := by
  have h := he.sound
  rw [h.scrape_eq (tellable_of_families hf)] at hf
  cases hf
  exact ⟨nodup_typeNames_iff h _, nodup_series_iff h m clock⟩

theorem declared_once_iff_tableAndNode :
    ∃ families, (bothFresh.scrape tableAndNode seconds).families = .ok families ∧
      (typeNames (render families)).Nodup ∧ (series (render families)).Nodup := by
  have ht : Tellable (outcomesOf tableAndNode seconds bothFresh.collectors) :=
    tellable_of_laps fun j hj => ⟨1000, milliseconds_seconds j hj⟩
  have hf := congrArg Scrape.families (served_bothFresh.sound.scrape_eq ht)
  obtain ⟨hnames, hsamples⟩ := declared_once_iff served_bothFresh hf
  exact ⟨_, hf, hnames.2 (by unfold NamesApart; decide +kernel), hsamples.2 (by unfold SamplesApart; decide +kernel)⟩

/-- Two names of the machine differ in a sign that is replaced, and a third begins with what tells
the nodes. -/
def namesMeet : Machine :=
  ⟨⟨nodeAlone.files.root.put ["proc", "meminfo"]
    (.file (Numa.asciiBytes "numa_MemFree_bytes: 1\na-b: 2\na.b: 3\n")), []⟩, none⟩

/-- Not every scrape of collectors that succeed declares its metrics once, nor has every sample once. -/
theorem not_declared_once_namesMeet :
    (∀ c ∈ bothFresh.collectors, c.fails namesMeet = false) ∧
      ∃ families, (bothFresh.scrape namesMeet seconds).families = .ok families ∧
        ¬ (typeNames (render families)).Nodup ∧ ¬ (series (render families)).Nodup := by
  have ht : Tellable (outcomesOf namesMeet seconds bothFresh.collectors) :=
    tellable_of_laps fun j hj => ⟨1000, milliseconds_seconds j hj⟩
  have h := served_bothFresh.sound
  refine ⟨by decide +kernel, _, congrArg Scrape.families (h.scrape_eq ht), ?_, ?_⟩
  · rw [nodup_typeNames_iff h]
    unfold NamesApart
    decide +kernel
  · rw [nodup_series_iff h]
    unfold SamplesApart
    decide +kernel

end Exporter

end NodeMemory
