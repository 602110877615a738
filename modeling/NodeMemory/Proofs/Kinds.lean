import NodeMemory.Proofs.Collectors
/-!
# Kinds over many scrapes

A node's record has the kind of its table. Its family has the kind that the collector's
cache knows of its name, and that is the kind of the first record with that name since
the collector began. So all records go out under their own kinds exactly as long as no
two of them share a name and not a kind (`node_kinds_kept_iff`), and a memory line whose
name ends in `_total` can break it (`not_keepsKinds_hitsMeasured`). On the machine's own table the
name alone tells the kind, so there nothing can (`machine_keepsKinds`).
-/

namespace NodeMemory

/-! ## Runs of scrapes -/

namespace Collector

/-- The collector after scrapes of some machines. -/
def afterScrapes (c : Collector) (ms : List Machine) : Collector := ms.foldl (fun c m => (c.scrape m).2) c

/-- The records of some scrapes, in the order in which they were read. -/
def history (c : Collector) : List Machine → List Record
  | [] => []
  | m :: ms => c.records m ++ (c.scrape m).2.history ms

theorem history_append (c : Collector) (ms ms' : List Machine) :
    c.history (ms ++ ms') = c.history ms ++ (c.afterScrapes ms).history ms' := by
  induction ms generalizing c with
  | nil => rfl
  | cons m ms ih =>
    rw [List.cons_append, history, history, ih, List.append_assoc]
    rfl

theorem history_concat (c : Collector) (ms : List Machine) (m : Machine) :
    c.history (ms ++ [m]) = c.history ms ++ (c.afterScrapes ms).records m := by
  rw [history_append, history, history, List.append_nil]

theorem mem_history_concat {c : Collector} {ms : List Machine} {m : Machine} {r : Record}
    (h : r ∈ (c.afterScrapes ms).records m) : r ∈ c.history (ms ++ [m]) := by
  rw [history_concat]
  exact List.mem_append_right _ h

/-- Later scrapes take nothing from the history. -/
theorem history_begins (c : Collector) (before after : List Machine) (m : Machine) :
    c.history (before ++ [m]) <+: c.history (before ++ m :: after) := by
  refine ⟨(c.afterScrapes (before ++ [m])).history after, ?_⟩
  rw [← history_append, ← List.append_cons]

theorem mem_history_iff {c : Collector} {ms : List Machine} {r : Record} :
    r ∈ c.history ms ↔ ∃ before m after, ms = before ++ m :: after ∧ r ∈ (c.afterScrapes before).records m := by
  induction ms generalizing c with
  | nil => simp [history]
  | cons m ms ih =>
    rw [history, List.mem_append, ih]
    constructor
    · rintro (h | ⟨before, m', after, rfl, h⟩)
      · exact ⟨[], m, ms, rfl, h⟩
      · exact ⟨m :: before, m', after, rfl, h⟩
    · rintro ⟨before, m', after, he, h⟩
      rcases before with _ | ⟨x, before⟩
      · cases he
        exact .inl h
      · cases he
        exact .inr ⟨before, m', after, rfl, h⟩

/-- A run keeps the collector in order, of its subject, and its cache has met the
history. -/
theorem Sound.afterScrapes {scope : String} {c : Collector} (hc : Sound scope c) (ms : List Machine) :
    Sound scope (c.afterScrapes ms) ∧ (c.afterScrapes ms).subject = c.subject ∧
      (c.afterScrapes ms).cache = c.cache.after (c.history ms) := by
  induction ms generalizing c with
  | nil => exact ⟨hc, rfl, rfl⟩
  | cons m ms ih =>
    obtain ⟨hs, hsub⟩ := hc.scrape m
    obtain ⟨h1, h2, h3⟩ := ih hs
    have hcache : (c.scrape m).2.cache = c.cache.after (c.records m) := by rw [hc.scrape_eq]; rfl
    rw [hcache, ← DescriptorCache.after_append] at h3
    exact ⟨h1, h2.trans hsub, h3⟩

theorem Sound.scrape_afterScrapes {scope : String} {c : Collector} (hc : Sound scope c) (ms : List Machine)
    (m : Machine) :
    ((c.afterScrapes ms).scrape m).1 =
      some (Family.grouped (c.cache.after (c.history (ms ++ [m]))) ((c.afterScrapes ms).records m)) := by
  obtain ⟨h1, -, h3⟩ := hc.afterScrapes ms
  rw [h1.scrape_eq, h3, ← DescriptorCache.after_append, history_concat]

end Collector

/-! ## The kind that a record goes out under -/

/-- One family alone has the sample of a record, and that family is of this kind. -/
def Subject.EmitsAs (s : Subject) (scope : String) (families : List Family) (r : Record) (k : Kind) : Prop :=
  ∃ f ∈ families, s.sample scope r ∈ f.samples ∧ (∀ g ∈ families, s.sample scope r ∈ g.samples → g = f) ∧ f.kind = k

theorem Subject.EmitsAs.unique {s : Subject} {scope : String} {families : List Family} {r : Record} {k k' : Kind}
    (h : s.EmitsAs scope families r k) (h' : s.EmitsAs scope families r k') : k = k' := by
  obtain ⟨f, -, -, hu, rfl⟩ := h
  obtain ⟨g, hg, hr, -, rfl⟩ := h'
  rw [hu g hg hr]

namespace Collector

/-- The family of a record's name has its sample, and no other family has. -/
theorem Sound.emitsAs {scope : String} {c : Collector} (hc : Sound scope c) {records : List Record}
    (hr : c.subject.Fits records) {r : Record} (hrm : r ∈ records) :
    c.subject.EmitsAs scope (Family.grouped (c.cache.after records) records) r
      ((c.cache.after records).descriptor r.name).kind := by
  have hsample : ∀ x ∈ records, Family.sampleIn (c.cache.after records) x = c.subject.sample scope x := fun x hx =>
    (hc.met hr).sampleIn_eq (DescriptorCache.isSome_get?_after c.cache hx) (hr.1.names x hx).1
  refine ⟨Family.familyOf (c.cache.after records) records r.name, ?_, ?_, ?_, rfl⟩
  · exact List.mem_map_of_mem (List.mem_eraseDups.2 (List.mem_map_of_mem hrm))
  · rw [← hsample r hrm]
    exact List.mem_map_of_mem (List.mem_filter.2 ⟨hrm, by simp⟩)
  · -- Another family with the sample would be of a record with the same name.
    intro g hg hx
    obtain ⟨name, -, rfl⟩ := List.mem_map.1 hg
    obtain ⟨x, hx, he⟩ := List.mem_map.1 hx
    obtain ⟨hxm, hname⟩ := List.mem_filter.1 hx
    rw [hsample x hxm] at he
    have hn : x.name = r.name := Subject.name_eq_of_sample_eq (hr.1.names x hxm).1 (hr.1.names r hrm).1 he
    have hname : x.name = name := by simpa using hname
    rw [← hname, hn]

end Collector

/-- Of a name that was not known, the kind of the first record with it is known. -/
theorem DescriptorCache.kind_after {c : DescriptorCache} {records : List Record} {r : Record}
    (hn : c.known.get? r.name = none) (hr : r ∈ records) :
    ∃ first, records.find? (fun x => x.name = r.name) = some first ∧
      ((c.after records).descriptor r.name).kind = first.kind := by
  have hs : (records.find? fun x => x.name = r.name).isSome := List.find?_isSome.2 ⟨r, hr, by simp⟩
  obtain ⟨first, hf⟩ := Option.isSome_iff_exists.1 hs
  refine ⟨first, hf, ?_⟩
  have hd : (c.after records).known.get? r.name = some (c.build r.name first.kind) := by
    rw [get?_after, hn, Option.none_or, hf, Option.map_some]
  rw [descriptor_of_some hd]
  rfl

namespace Collector

/-- In the scrape that follows a run, every record goes out under the kind of the first
record with its name, from the beginning of the run on. -/
theorem emitsAs_first (config : Config) (s : Subject) (ms : List Machine) (m : Machine) {r : Record}
    (hr : r ∈ ((ofConfig config s).afterScrapes ms).records m) :
    ∃ families first, (((ofConfig config s).afterScrapes ms).scrape m).1 = some families ∧
      ((ofConfig config s).history (ms ++ [m])).find? (fun x => x.name = r.name) = some first ∧
      s.EmitsAs config.scope families r first.kind := by
  have hc := sound_ofConfig config s
  obtain ⟨hm, hsub, hcache⟩ := hc.afterScrapes ms
  obtain ⟨first, hf, hk⟩ := DescriptorCache.kind_after (c := (ofConfig config s).cache) rfl (mem_history_concat hr)
  have he := hm.emitsAs (fits_records m _) hr
  rw [hsub, subject_ofConfig, hcache, ← DescriptorCache.after_append, ← history_concat, hk] at he
  exact ⟨_, first, hc.scrape_afterScrapes ms m, hf, he⟩

/-! ## Runs that keep all kinds -/

/-- In every scrape of a run every record goes out under its own kind. -/
def KeepsKinds (c : Collector) (scope : String) (ms : List Machine) : Prop :=
  ∀ before m after, ms = before ++ m :: after → ∃ families, ((c.afterScrapes before).scrape m).1 = some families ∧
    ∀ r ∈ (c.afterScrapes before).records m, c.subject.EmitsAs scope families r r.kind

/-- Records with one name have one kind. -/
def KindsAgree (records : List Record) : Prop := ∀ a ∈ records, ∀ b ∈ records, a.name = b.name → a.kind = b.kind

instance (records : List Record) : Decidable (KindsAgree records) :=
  inferInstanceAs (Decidable (∀ a ∈ records, ∀ b ∈ records, a.name = b.name → a.kind = b.kind))

theorem keepsKinds_iff (config : Config) (s : Subject) (ms : List Machine) :
    (ofConfig config s).KeepsKinds config.scope ms ↔ KindsAgree ((ofConfig config s).history ms) := by
  constructor
  · intro h
    -- Each record of the run has the kind of the first one with its name.
    have hfirst : ∀ r ∈ (ofConfig config s).history ms, ∃ first,
        ((ofConfig config s).history ms).find? (fun x => x.name = r.name) = some first ∧ r.kind = first.kind := by
      intro r hrh
      obtain ⟨before, m, after, rfl, hr⟩ := mem_history_iff.1 hrh
      obtain ⟨families, hf, hk⟩ := h before m after rfl
      obtain ⟨families', first, hf', hfind, he⟩ := emitsAs_first config s before m hr
      rw [hf, Option.some.injEq] at hf'
      subst hf'
      have hk := hk r hr
      rw [subject_ofConfig] at hk
      obtain ⟨later, hl⟩ := history_begins (ofConfig config s) before after m
      exact ⟨first, by rw [← hl, List.find?_append, hfind, Option.some_or], hk.unique he⟩
    intro a ha b hb hn
    obtain ⟨x, hx, hax⟩ := hfirst a ha
    obtain ⟨y, hy, hby⟩ := hfirst b hb
    rw [hn, hy, Option.some.injEq] at hx
    rw [hax, hby, hx]
  · rintro h before m after rfl
    refine ⟨_, (sound_ofConfig config s).scrape_afterScrapes before m, fun r hr => ?_⟩
    obtain ⟨families, first, hf, hfind, he⟩ := emitsAs_first config s before m hr
    rw [(sound_ofConfig config s).scrape_afterScrapes before m, Option.some.injEq] at hf
    subst hf
    have hsub := (history_begins (ofConfig config s) before after m).subset
    have hname : first.name = r.name := by simpa using List.find?_some hfind
    have hk : first.kind = r.kind :=
      h first (hsub (List.mem_of_find?_eq_some hfind)) r (hsub (mem_history_concat hr)) hname
    rw [subject_ofConfig, ← hk]
    exact he

/-- On the machine's own table the name tells the kind, so all kinds are kept. -/
theorem machine_keepsKinds (config : Config) (ms : List Machine) :
    (ofConfig config .machine).KeepsKinds config.scope ms := by
  have hkind : ∀ r ∈ (ofConfig config .machine).history ms, r.kind = .ofName r.name := by
    intro r hr
    obtain ⟨before, m, after, -, hr⟩ := mem_history_iff.1 hr
    have ha := (fits_records m _).2 r hr
    rw [((sound_ofConfig config .machine).afterScrapes before).2.1, subject_ofConfig] at ha
    exact ha.2
  rw [keepsKinds_iff]
  intro a ha b hb hn
  rw [hkind a ha, hkind b hb, hn]

/-! ## The nodes -/

/-- A source that no reading changes stays through a run. -/
theorem source_afterScrapes_of_fixed {scope : String} {c : Collector} (hc : Sound scope c)
    (hs : ∀ m, (c.source.read m).2.2 = c.source) (ms : List Machine) : (c.afterScrapes ms).source = c.source := by
  induction ms generalizing c with
  | nil => rfl
  | cons m ms ih =>
    have hm : (c.scrape m).2.source = c.source := by
      rw [hc.scrape_eq]
      exact hs m
    exact (ih (hc.scrape m).1 (hm ▸ hs)).trans hm

theorem source_afterScrapes {scope : String} {root : Path} {c : Collector} (hc : Sound scope c)
    (hs : c.source = .nodes root) (ms : List Machine) : (c.afterScrapes ms).source = .nodes root :=
  (source_afterScrapes_of_fixed hc (fun m => by rw [hs]; rfl) ms).trans hs

/-- A record of the nodes comes from one of the tables of one directory, and has the kind
of that table. -/
theorem kind_of_records {root : Path} {m : Machine} {c : Collector} (hs : c.source = .nodes root) {r : Record}
    (hr : r ∈ c.records m) :
    ∃ d gauges counters, Numa.Gives m.files d gauges counters ∧
      (r ∈ gauges ∧ r.kind = .gauge ∨ r ∈ counters ∧ r.kind = .counter ∧ endsWith r.name counterSuffix) := by
  unfold records at hr
  cases h : (c.read m).result with
  | error fault => simp [h, Except.toOption] at hr
  | ok found =>
    rw [h] at hr
    have hread := (read_eq_ok_iff.1 h).1
    rw [hs] at hread
    exact Numa.kind_of_read hread r hr

/-- A run of the nodes' collector keeps all kinds if and only if the records of the run
that share a name share a kind. One by one: a record, whose own kind is that of the table
it comes from, goes out under the kind of the first record with its name. -/
theorem node_kinds_kept_iff (config : Config) (ms : List Machine) :
    ((ofConfig config .nodes).KeepsKinds config.scope ms ↔ KindsAgree ((ofConfig config .nodes).history ms)) ∧
    ∀ m, ∀ r ∈ ((ofConfig config .nodes).afterScrapes ms).records m,
      (∃ d gauges counters, Numa.Gives m.files d gauges counters ∧
        (r ∈ gauges ∧ r.kind = .gauge ∨ r ∈ counters ∧ r.kind = .counter ∧ endsWith r.name counterSuffix)) ∧
      ∃ families first, (((ofConfig config .nodes).afterScrapes ms).scrape m).1 = some families ∧
        ((ofConfig config .nodes).history (ms ++ [m])).find? (fun x => x.name = r.name) = some first ∧
        Subject.nodes.EmitsAs config.scope families r first.kind := by
  refine ⟨keepsKinds_iff config .nodes ms, fun m r hr => ⟨?_, emitsAs_first config .nodes ms m hr⟩⟩
  exact kind_of_records (source_afterScrapes (sound_ofConfig config .nodes) rfl ms) hr

/-- A machine with one node that has these tables. -/
def oneNode (memory counts : String) : Machine := ⟨Numa.nodeTree [("node0", Numa.nodeEntry memory counts)], none⟩

/-- The node counts its hits. -/
def hitsCounted : Machine := oneNode "" "numa_hit 7\n"

/-- A memory line of the node has the name of that count. -/
def hitsMeasured : Machine := oneNode "Node 0 numa_hit_total: 5\n" ""

/-- After the count, the memory line goes out as a counter. -/
theorem node_kinds_kept_iff_hitsMeasured :
    ∃ r ∈ ((ofConfig (.default "linux") .nodes).afterScrapes [hitsCounted]).records hitsMeasured,
      r.kind = .gauge ∧ ∃ families,
        (((ofConfig (.default "linux") .nodes).afterScrapes [hitsCounted]).scrape hitsMeasured).1 = some families ∧
        Subject.nodes.EmitsAs (Config.default "linux").scope families r .counter := by
  have hr : ∃ r ∈ ((ofConfig (.default "linux") .nodes).afterScrapes [hitsCounted]).records hitsMeasured,
      r.kind = .gauge ∧ (((ofConfig (.default "linux") .nodes).history ([hitsCounted] ++ [hitsMeasured])).find?
        fun x => x.name = r.name).map Record.kind = some .counter := by decide +kernel
  obtain ⟨r, hr, hg, hk⟩ := hr
  obtain ⟨-, families, first, hf, hfind, he⟩ :=
    (node_kinds_kept_iff (.default "linux") [hitsCounted]).2 hitsMeasured r hr
  rw [hfind, Option.map_some, Option.some.injEq] at hk
  exact ⟨r, hr, hg, families, hf, hk ▸ he⟩

/-- A run of the two does not keep all kinds. -/
theorem not_keepsKinds_hitsMeasured :
    ¬ (ofConfig (.default "linux") .nodes).KeepsKinds (Config.default "linux").scope [hitsCounted, hitsMeasured] := by
  rw [keepsKinds_iff]
  decide +kernel

end Collector

end NodeMemory
