import NodeMemory.Proofs.Kinds
/-!
# The machine's families forget earlier scrapes

The machine's records tell their kinds by their names, so a descriptor that the cache keeps
is the one that a first request for the name would build (`BuiltByName`). What the collector
met before then leaves no trace in its families: they are those that a new collector has for
the same figures, whatever the source gave, or failed with, before (`earlier_scrapes_forgotten`).
-/

namespace NodeMemory

/-! ## Descriptors built from names -/

namespace DescriptorCache

/-- Every descriptor is the one that its name alone builds. -/
def BuiltByName (c : DescriptorCache) : Prop :=
  ∀ name d, c.known.get? name = some d → d = c.build name (.ofName name)

theorem BuiltByName.after {c : DescriptorCache} (h : c.BuiltByName) {records : List Record}
    (hr : ∀ r ∈ records, r.kind = .ofName r.name) : (c.after records).BuiltByName := by
  intro name d hd
  rw [(sameShape_after c records).build]
  -- What a record brought has its kind, and that is the one its name tells.
  rcases known_or_brought hd with hk | ⟨r, hrm, rfl, rfl⟩
  · exact h name d hk
  · rw [hr r hrm]

theorem BuiltByName.descriptor_eq {c : DescriptorCache} (h : c.BuiltByName) {name : String}
    (hk : (c.known.get? name).isSome) : c.descriptor name = c.build name (.ofName name) := by
  obtain ⟨d, hd⟩ := Option.isSome_iff_exists.1 hk
  rw [descriptor_of_some hd]
  exact h name d hd

end DescriptorCache

/-- Families depend on the labels of the cache and on what it says of the records' names,
and on nothing else in it. -/
theorem Family.grouped_congr {a b : DescriptorCache} {records : List Record} (hl : a.labels = b.labels)
    (hd : ∀ r ∈ records, a.descriptor r.name = b.descriptor r.name) : grouped a records = grouped b records := by
  have hs : ∀ r ∈ records, sampleIn a r = sampleIn b r := fun r hr => by
    simp only [sampleIn, labelValues, hl, hd r hr]
  refine List.map_congr_left fun name hn => ?_
  obtain ⟨r, hr, rfl⟩ := List.mem_map.1 (List.mem_eraseDups.1 hn)
  have hsamples : (records.filter fun x => x.name = r.name).map (sampleIn a) =
      (records.filter fun x => x.name = r.name).map (sampleIn b) :=
    List.map_congr_left fun x hx => hs x (List.mem_filter.1 hx).1
  simp only [familyOf, hd r hr, hsamples]

namespace Collector

/-- A machine's collector that keeps nothing but what names build. -/
structure ByName (scope : String) (c : Collector) : Prop extends Sound scope c where
  subject_eq : c.subject = .machine
  descriptors : c.cache.BuiltByName

/-- What a reading of the machine can come to. -/
def Possible (result : Except CollectorFault (List Record)) : Prop :=
  ∀ records, result = .ok records → Subject.machine.Fits records

namespace ByName

variable {scope : String} {a b c : Collector} {records : List Record}

theorem fresh (config : Config) : ByName config.scope (ofConfig config .machine) :=
  ⟨sound_ofConfig config .machine, subject_ofConfig config .machine, nofun⟩

theorem read (h : ByName scope c) (m : Machine) : ByName scope (c.read m).collector :=
  ⟨h.toSound.read m, (subject_read m c).trans h.subject_eq, h.descriptors⟩

theorem possible_read (h : ByName scope c) (m : Machine) : Possible (c.read m).result :=
  fun _ hr => h.subject_eq ▸ fits_of_read hr

theorem met (h : ByName scope c) (hr : Subject.machine.Fits records) : ByName scope (c.met records) :=
  ⟨h.toSound.met (h.subject_eq ▸ hr), h.subject_eq, h.descriptors.after fun r hrm => (hr.2 r hrm).2⟩

theorem grouped_eq (ha : ByName scope a) (hb : ByName scope b) (hr : Subject.machine.Fits records) :
    Family.grouped (a.met records).cache records = Family.grouped (b.met records).cache records := by
  have ha' := ha.met hr
  have hb' := hb.met hr
  have hl : (a.met records).cache.labels = (b.met records).cache.labels := by
    rw [ha'.labels_eq, hb'.labels_eq, ha'.subject_eq, hb'.subject_eq]
  -- Both describe a name as their shape builds it, whenever they met it first.
  refine Family.grouped_congr hl fun r hrm => ?_
  rw [ha'.descriptors.descriptor_eq (DescriptorCache.isSome_get?_after a.cache hrm),
    hb'.descriptors.descriptor_eq (DescriptorCache.isSome_get?_after b.cache hrm)]
  refine DescriptorCache.SameShape.build ⟨?_, ?_, hl⟩ _ _
  · rw [ha'.scope_eq, hb'.scope_eq]
  · rw [ha'.subsystem_eq, hb'.subsystem_eq, ha'.subject_eq, hb'.subject_eq]

theorem families_agree (ha : ByName scope a) (hb : ByName scope b) {result : Except CollectorFault (List Record)}
    (hr : Possible result) :
    ∃ families, (a.families result).1 = some families ∧ (b.families result).1 = some families := by
  cases result with
  | error fault => exact ⟨[], rfl, rfl⟩
  | ok records =>
    have hf := hr records rfl
    refine ⟨Family.grouped (a.met records).cache records, ?_, ?_⟩
    · rw [ha.families_eq (ha.subject_eq ▸ hf)]
    · rw [hb.families_eq (hb.subject_eq ▸ hf), grouped_eq ha hb hf]

/-- The step: whatever a reading came to, the collector still keeps nothing but what names
build. -/
theorem families (h : ByName scope c) {result : Except CollectorFault (List Record)} (hr : Possible result) :
    ByName scope (c.families result).2 := by
  cases result with
  | error fault => exact h
  | ok records =>
    have hf := hr records rfl
    rw [h.families_eq (h.subject_eq ▸ hf)]
    exact h.met hf

theorem afterScrapes (h : ByName scope c) (ms : List Machine) : ByName scope (c.afterScrapes ms) := by
  induction ms generalizing c with
  | nil => exact h
  | cons m ms ih => exact ih ((h.read m).families (h.possible_read m))

end ByName

/-! ## Sources of any kind -/

section Given

variable {ε : Type} (told : ε → CollectorFault)

/-- What comes of a reading whose source gives these figures, or fails with what is then
told as a fault. -/
def given : Except ε (Keyed Binary64) → Except CollectorFault (List Record)
  | .ok figures => validate (Record.ofFigures figures)
  | .error e => .error (told e)

def scrapeGiven (c : Collector) (figures : Except ε (Keyed Binary64)) : Option (List Family) × Collector :=
  c.families (given told figures)

/-- The collector after scrapes whose source gave these figures, or failed. -/
def afterGiven (c : Collector) (run : List (Except ε (Keyed Binary64))) : Collector :=
  run.foldl (fun c figures => (c.scrapeGiven told figures).2) c

theorem possible_given (figures : Except ε (Keyed Binary64)) : Possible (given told figures) := by
  intro records h
  cases figures with
  | error e => cases h
  | ok figures =>
    obtain ⟨rfl, hv⟩ := validate_eq_ok_iff.1 h
    exact ⟨hv, Record.admits_ofFigures figures⟩

theorem ByName.afterGiven {scope : String} {c : Collector} (h : ByName scope c)
    (run : List (Except ε (Keyed Binary64))) : ByName scope (c.afterGiven told run) := by
  induction run generalizing c with
  | nil => exact h
  | cons figures run ih => exact ih (h.families (possible_given told figures))

end Given

theorem exists_figures {s : Source} (h : s.subject = .machine) (m : Machine) :
    ∃ figures : Except Fault (Keyed Binary64), (s.read m).1 = figures.map Record.ofFigures := by
  cases s with
  | table file => exact ⟨_, rfl⟩
  | native source => exact ⟨_, rfl⟩
  | nodes root => cases h

theorem scrape_fst_eq {c : Collector} (h : c.subject = .machine) {m : Machine} {figures : Except Fault (Keyed Binary64)}
    (hf : (c.source.read m).1 = figures.map Record.ofFigures) :
    (c.scrape m).1 = (c.scrapeGiven (.failed .machine) figures).1 := by
  have hr : (c.read m).result = given (.failed .machine) figures := by
    simp only [Collector.read, hf, h]
    cases figures <;> rfl
  rw [scrape, scrapeGiven, hr]
  -- A reading changes the source alone, and families do not depend on that.
  cases given (.failed .machine) figures <;> rfl

/-- **Earlier scrapes are forgotten.** What the source gave before, or failed with, changes
nothing about the families of a scrape: a new collector has the same ones when its source
gives the same in its first scrape. So it is in particular for the sources of a machine that
changes between the scrapes, and a new collector that reads the table of the machine as it is
in the end has those families too. -/
theorem earlier_scrapes_forgotten (config : Config) :
    (∀ (ε : Type) (told : ε → CollectorFault) (earlier : List (Except ε (Keyed Binary64))) last, ∃ families,
      (((ofConfig config .machine).afterGiven told earlier).scrapeGiven told last).1 = some families ∧
      ((ofConfig config .machine).scrapeGiven told last).1 = some families) ∧
    ∀ ms m, ∃ (families : List Family) (figures : Except Fault (Keyed Binary64)),
      (((ofConfig config .machine).afterScrapes ms).scrape m).1 = some families ∧
      (((ofConfig config .machine).afterScrapes ms).source.read m).1 = figures.map Record.ofFigures ∧
      ((ofConfig config .machine).scrapeGiven (.failed .machine) figures).1 = some families ∧
      (config.platform ≠ Config.nativePlatform → ((ofConfig config .machine).scrape m).1 = some families) := by
  have fresh := ByName.fresh config
  constructor
  · intro ε told earlier last
    exact (fresh.afterGiven told earlier).families_agree fresh (possible_given told last)
  · intro ms m
    have after := fresh.afterScrapes ms
    obtain ⟨figures, hf⟩ := exists_figures after.subject_eq m
    obtain ⟨families, ha, hb⟩ := after.families_agree fresh (possible_given (.failed .machine) figures)
    refine ⟨families, figures, (scrape_fst_eq after.subject_eq hf).trans ha, hf, hb, fun hp => ?_⟩
    have htable : (ofConfig config .machine).source = .table config.memoryTable := if_neg hp
    have hsource := source_afterScrapes_of_fixed fresh.toSound (fun m => by rw [htable]; rfl) ms
    exact (scrape_fst_eq fresh.subject_eq (hsource ▸ hf)).trans hb

/-- A machine with this memory table. -/
def tableAlone (text : String) : Machine :=
  ⟨⟨.directory [("proc", .directory [("meminfo", .file (Numa.asciiBytes text))])], []⟩, none⟩

def freeAndFaults : Machine := tableAlone "MemFree: 2 kB\nFaults_total: 3\n"

/-- After a table with an earlier count and a broken table, the families are a new collector's. -/
theorem earlier_scrapes_forgotten_freeAndFaults :
    ∃ families,
      (((ofConfig (.default "linux") .machine).afterScrapes
        [tableAlone "Faults_total: 1\n", tableAlone "Faults_total:\n"]).scrape freeAndFaults).1 = some families ∧
      ((ofConfig (.default "linux") .machine).scrape freeAndFaults).1 = some families ∧
      families.map (fun f => (f.name, f.kind)) = [("node_memory_MemFree_bytes", .gauge), ("node_memory_Faults", .counter)] := by
  obtain ⟨families, -, hrun, -, -, hnew⟩ := (earlier_scrapes_forgotten (.default "linux")).2
    [tableAlone "Faults_total: 1\n", tableAlone "Faults_total:\n"] freeAndFaults
  have hnew := hnew (by decide)
  have hnames : ((ofConfig (.default "linux") .machine).scrape freeAndFaults).1.map
      (fun families => families.map fun f => (f.name, f.kind)) =
        some [("node_memory_MemFree_bytes", .gauge), ("node_memory_Faults", .counter)] := by decide +kernel
  rw [hnew, Option.map_some, Option.some.injEq] at hnames
  exact ⟨families, hrun, hnew, hnames⟩

end Collector

end NodeMemory
