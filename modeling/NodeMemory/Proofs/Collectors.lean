import NodeMemory.Proofs.Grouping
import NodeMemory.Proofs.Readings
/-!
# Collectors over many scrapes

A collector that starts with nothing known keeps its cache in order, whatever it reads
(`Sound`): every descriptor is the one that its name builds, and only names that end in
`_total` are known as counters. So the families of a reading are always there, and their
samples are the records, each under its full name (`samples_grouped_perm`).
-/

namespace NodeMemory

/-! ## The sample of a record -/

/-- The sample that a record of a subject has to be. -/
def Subject.sample (s : Subject) (scope : String) (r : Record) : Sample where
  name := Record.qualifiedName [scope, s.subsystem, r.name]
  labels :=
    match s with
    | machine => []
    | nodes => [("node", r.node)]
  value := r.value

/-- Samples tell their subject by their labels. -/
theorem Subject.eq_of_sample_eq {s t : Subject} {scope : String} {a b : Record}
    (h : s.sample scope a = t.sample scope b) : s = t := by
  have hl := congrArg Sample.labels h
  cases s <;> cases t <;> simp_all [sample]

theorem Subject.name_eq_of_sample_eq {s : Subject} {scope : String} {a b : Record} (ha : a.name ≠ "")
    (hb : b.name ≠ "") (h : s.sample scope a = s.sample scope b) : a.name = b.name := by
  have hn := congrArg Sample.name h
  simp only [sample] at hn
  rwa [Record.qualifiedName_eq_lead scope s.subsystem_ne_empty ha,
    Record.qualifiedName_eq_lead scope s.subsystem_ne_empty hb, String.append_right_inj] at hn

/-- Records that fit a subject have samples that differ in name or labels. -/
theorem Subject.Fits.nodup_samples {s : Subject} {records : List Record} (h : s.Fits records) (scope : String) :
    (records.map (s.sample scope)).Nodup := by
  obtain ⟨⟨hn, hk⟩, ha⟩ := h
  refine List.Nodup.map_on ?_ (List.Nodup.of_map _ hk)
  intro a haa b hb he
  have hname : a.name = b.name := name_eq_of_sample_eq (hn a haa).1 (hn b hb).1 he
  have hnode : a.node = b.node := by
    cases s with
    | machine => rw [(ha a haa).1, (ha b hb).1]
    | nodes => simpa [sample] using congrArg Sample.labels he
  exact List.inj_on_of_nodup_map hk haa hb (by rw [Record.key, Record.key, hname, hnode])

namespace Collector

/-! ## What a collector keeps -/

/-- The cache of a collector is shaped by its subject, each descriptor in it is the one
that its name builds, and only names that end in `_total` are known as counters. -/
structure Sound (scope : String) (c : Collector) : Prop where
  scope_eq : c.cache.scope = scope
  subsystem_eq : c.cache.subsystem = c.subject.subsystem
  labels_eq : c.cache.labels = c.subject.labels
  built : ∀ name d, c.cache.known.get? name = some d → d = c.cache.build name d.kind
  counters : ∀ name d, c.cache.known.get? name = some d → d.kind = .counter → endsWith name counterSuffix

theorem subject_ofConfig (config : Config) (s : Subject) : (ofConfig config s).subject = s := by
  cases s
  · simp only [ofConfig, subject, Source.ofConfig]
    split <;> rfl
  · rfl

theorem sound_ofConfig (config : Config) (s : Subject) : Sound config.scope (ofConfig config s) := by
  refine ⟨rfl, ?_, ?_, nofun, nofun⟩
  · rw [subject_ofConfig]; rfl
  · rw [subject_ofConfig]; rfl

theorem Sound.read {scope : String} {c : Collector} (h : Sound scope c) (m : Machine) :
    Sound scope (c.read m).collector :=
  ⟨h.scope_eq, by rw [subject_read]; exact h.subsystem_eq, by rw [subject_read]; exact h.labels_eq, h.built,
    h.counters⟩

/-- A collector with the descriptors of some more records. -/
def met (c : Collector) (records : List Record) : Collector := { c with cache := c.cache.after records }

theorem Sound.met {scope : String} {c : Collector} (h : Sound scope c) {records : List Record}
    (hr : c.subject.Fits records) : Sound scope (c.met records) := by
  have hs := DescriptorCache.sameShape_after c.cache records
  refine ⟨hs.1.trans h.scope_eq, hs.2.1.trans h.subsystem_eq, hs.2.2.trans h.labels_eq, ?_, ?_⟩
  · intro name d hd
    show d = (c.cache.after records).build name d.kind
    rw [hs.build]
    rcases DescriptorCache.known_or_brought hd with hk | ⟨r, -, -, rfl⟩
    · exact h.built name d hk
    · rfl
  · intro name d hd hc
    rcases DescriptorCache.known_or_brought hd with hk | ⟨r, hrm, rfl, rfl⟩
    · exact h.counters name d hk hc
    · exact (hr.2 r hrm).endsWith hc

/-! ## The families of a reading -/

theorem Sound.descriptor_eq {scope : String} {c : Collector} (h : Sound scope c) {name : String}
    (hk : (c.cache.known.get? name).isSome) :
    c.cache.descriptor name = c.cache.build name (c.cache.descriptor name).kind := by
  obtain ⟨d, hd⟩ := Option.isSome_iff_exists.1 hk
  rw [DescriptorCache.descriptor_of_some hd]
  exact h.built name d hd

theorem Sound.fullName_eq {scope : String} {c : Collector} (h : Sound scope c) {name : String}
    (hk : (c.cache.known.get? name).isSome) :
    (c.cache.descriptor name).fullName = Record.qualifiedName [scope, c.subject.subsystem, name] := by
  rw [h.descriptor_eq hk, DescriptorCache.build, h.scope_eq, h.subsystem_eq]

theorem Sound.named {scope : String} {c : Collector} (h : Sound scope c) {name : String}
    (hk : (c.cache.known.get? name).isSome) (hn : name ≠ "") : Family.Named c.cache name := by
  have hl := c.subject.length_lead scope
  rw [Family.Named, h.fullName_eq hk, Record.qualifiedName_eq_lead scope c.subject.subsystem_ne_empty hn]
  cases (c.cache.descriptor name).kind with
  | gauge =>
    intro he
    have := congrArg String.length he
    simp only [Family.baseName, String.length_append, String.length_empty] at this
    omega
  | counter =>
    apply Family.dropCounterSuffix_ne_empty
    rw [String.length_append]
    omega

/-- What is known is written under its full name. A counter is, because that ends in `_total`. -/
theorem Sound.writtenName_eq {scope : String} {c : Collector} (h : Sound scope c) {name : String}
    (hk : (c.cache.known.get? name).isSome) (hn : name ≠ "") :
    Family.writtenName (c.cache.descriptor name) = Record.qualifiedName [scope, c.subject.subsystem, name] := by
  obtain ⟨d, hd⟩ := Option.isSome_iff_exists.1 hk
  rw [← h.fullName_eq hk]
  refine Family.writtenName_eq fun hc => ?_
  rw [h.fullName_eq hk, Record.qualifiedName_eq_lead scope c.subject.subsystem_ne_empty hn]
  rw [DescriptorCache.descriptor_of_some hd] at hc
  exact endsWith_append_of_endsWith _ (h.counters name d hd hc)

/-- A record whose name is known goes out under its full name, with its node where the
subject has nodes. -/
theorem Sound.sampleIn_eq {scope : String} {c : Collector} (h : Sound scope c) {r : Record}
    (hk : (c.cache.known.get? r.name).isSome) (hn : r.name ≠ "") :
    Family.sampleIn c.cache r = c.subject.sample scope r := by
  have hl : (c.cache.descriptor r.name).labels = c.subject.labels := by
    rw [h.descriptor_eq hk, DescriptorCache.build, h.labels_eq]
  rw [Family.sampleIn, h.writtenName_eq hk hn, hl, Family.labelValues, h.labels_eq]
  cases hs : c.subject <;> rfl

/-- A reading that has records has families, and the collector has met their names. -/
theorem Sound.families_eq {scope : String} {c : Collector} (h : Sound scope c) {records : List Record}
    (hr : c.subject.Fits records) :
    c.families (.ok records) = (some (Family.grouped (c.met records).cache records), c.met records) := by
  have hn : ∀ r ∈ records, Family.Named (c.cache.after records) r.name := fun r hrm =>
    (h.met hr).named (DescriptorCache.isSome_get?_after c.cache hrm) (hr.1.names r hrm).1
  simp only [families, Family.collect_eq hn]
  rfl

/-- The samples of a reading's families are the samples of its records. -/
theorem Sound.samples_perm {scope : String} {c : Collector} (h : Sound scope c) {records : List Record}
    (hr : c.subject.Fits records) :
    ((Family.grouped (c.met records).cache records).flatMap Family.samples).Perm
      (records.map (c.subject.sample scope)) := by
  have hs : records.map (Family.sampleIn (c.met records).cache) = records.map (c.subject.sample scope) :=
    List.map_congr_left fun r hrm =>
      (h.met hr).sampleIn_eq (DescriptorCache.isSome_get?_after c.cache hrm) (hr.1.names r hrm).1
  exact hs ▸ Family.samples_grouped_perm _ records

/-! ## Scrapes of one collector -/

/-- The records of a collector, none if it fails. -/
def records (m : Machine) (c : Collector) : List Record := (c.read m).result.toOption.getD []

theorem fits_records (m : Machine) (c : Collector) : c.subject.Fits (c.records m) := by
  unfold records
  cases h : (c.read m).result with
  | error fault => exact ⟨⟨nofun, .nil⟩, nofun⟩
  | ok found => exact fits_of_read h

/-- A scrape of one collector: the families of a reading, and the collector afterwards. -/
def scrape (m : Machine) (c : Collector) : Option (List Family) × Collector :=
  (c.read m).collector.families (c.read m).result

/-- No scrape is without families: they are those of the records, none if the reading
failed, and the collector has met the records. -/
theorem Sound.scrape_eq {scope : String} {c : Collector} (hc : Sound scope c) (m : Machine) :
    c.scrape m = (some (Family.grouped (c.cache.after (c.records m)) (c.records m)),
      (c.read m).collector.met (c.records m)) := by
  unfold scrape records
  cases h : (c.read m).result with
  | error fault => rfl
  | ok found => exact (hc.read m).families_eq (by rw [subject_read]; exact fits_of_read h)

/-- The samples of a scrape are the samples of the collector's records. -/
theorem Sound.scrape_perm {scope : String} {c : Collector} (hc : Sound scope c) (m : Machine) :
    (((c.scrape m).1.getD []).flatMap Family.samples).Perm ((c.records m).map (c.subject.sample scope)) := by
  rw [hc.scrape_eq]
  exact hc.samples_perm (fits_records m c)

theorem Sound.scrape {scope : String} {c : Collector} (hc : Sound scope c) (m : Machine) :
    Sound scope (c.scrape m).2 ∧ (c.scrape m).2.subject = c.subject := by
  rw [hc.scrape_eq]
  have hf : (c.read m).collector.subject.Fits (c.records m) := by
    rw [subject_read]
    exact fits_records m c
  exact ⟨(hc.read m).met hf, subject_read m c⟩

end Collector

end NodeMemory
