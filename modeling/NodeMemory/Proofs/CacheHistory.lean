import NodeMemory.Proofs.Passes
/-!
# What a cache knows in the end

Of every name that a cache was ever asked for it knows what the first request built, and it
knows no other name (`Remembers`). A collector asks for the names of its records when the
families of a pass are built. So after any passes its cache knows the names of the records of
those passes, and one that fails or goes without families leaves no trace in it (`cache_history`).
-/

namespace NodeMemory

namespace DescriptorCache

/-- The kind that the first request for a name has. -/
def firstKind? (requests : List (String × Kind)) (name : String) : Option Kind :=
  (requests.find? fun r => r.1 = name).map Prod.snd

/-- What a new cache is after some requests. -/
structure Remembers (scope subsystem : String) (labels : List String) (requests : List (String × Kind))
    (c : DescriptorCache) : Prop where
  /-- A request has what the first request for its name built: this one, if there was none. Its full name
  is made of the parts that are not empty. -/
  answer : ∀ name kind, (c.request name kind).1 = {
    fullName := "_".intercalate ([scope, subsystem, name].filter fun part => part ≠ "")
    documentation := "Memory information field " ++ name ++ "."
    kind := (firstKind? requests name).getD kind
    labels := labels }
  /-- More requests change nothing and remove nothing. -/
  kept : ∀ more, c.known.entries <+: (c.requestAll more).known.entries
  /-- It counts the distinct names, -/
  size_eq : c.size = (requests.map Prod.fst).eraseDups.length
  /-- and has them all. -/
  contains_iff : ∀ name, c.contains name ↔ name ∈ requests.map Prod.fst

/-! ## Names -/

theorem build_eq (scope subsystem : String) (labels : List String) (name : String) (kind : Kind) :
    (fresh scope subsystem labels).build name kind = {
      fullName := "_".intercalate ([scope, subsystem, name].filter fun part => part ≠ "")
      documentation := "Memory information field " ++ name ++ "."
      kind := kind
      labels := labels } := by
  have hparts : [scope, subsystem, name].filter (fun part => part ≠ "") =
      [scope, subsystem, name].filter fun part => !part.isEmpty :=
    List.filter_congr fun part _ => by rw [Bool.eq_iff_iff]; simp
  rw [hparts]
  rfl

theorem names_request (c : DescriptorCache) (name : String) (kind : Kind) :
    (c.request name kind).2.known.names =
      if name ∈ c.known.names then c.known.names else c.known.names ++ [name] := by
  cases h : c.known.get? name with
  | some d =>
    have hm : name ∈ c.known.names := (c.known.contains_iff name).1 (by rw [Keyed.contains, h]; rfl)
    rw [request_of_some h, if_pos hm]
  | none =>
    rw [request_of_none h]
    exact Keyed.names_insert _ _ _

theorem entries_request (c : DescriptorCache) (name : String) (kind : Kind) :
    c.known.entries <+: (c.request name kind).2.known.entries := by
  cases h : c.known.get? name with
  | some d => rw [request_of_some h]
  | none =>
    have hn : name ∉ c.known.names := by
      rw [← Keyed.contains_iff, Keyed.contains, h]
      simp
    rw [request_of_none h]
    exact ⟨[(name, c.build name kind)], (Entries.insert_of_notMem _ hn).symm⟩

theorem entries_requestAll (c : DescriptorCache) (requests : List (String × Kind)) :
    c.known.entries <+: (c.requestAll requests).known.entries := by
  induction requests generalizing c with
  | nil => exact List.prefix_rfl
  | cons r rs ih => exact (entries_request c r.1 r.2).trans (ih _)

/-- The names stand in the order in which they were first asked for. -/
theorem names_requestAll (scope subsystem : String) (labels : List String) (requests : List (String × Kind)) :
    ((fresh scope subsystem labels).requestAll requests).known.names = (requests.map Prod.fst).eraseDups := by
  induction requests using List.reverseRecOn with
  | nil => rfl
  | append_singleton rs r ih =>
    rw [requestAll_append, List.map_append, List.map_singleton, eraseDups_concat]
    show (((fresh scope subsystem labels).requestAll rs).request r.1 r.2).2.known.names = _
    simp only [names_request, ih, List.mem_eraseDups]

theorem remembers_requestAll (scope subsystem : String) (labels : List String) (requests : List (String × Kind)) :
    Remembers scope subsystem labels requests ((fresh scope subsystem labels).requestAll requests) := by
  have hnames := names_requestAll scope subsystem labels requests
  refine ⟨fun name kind => ?_, entries_requestAll _, ?_, fun name => ?_⟩
  · have hknown : ((fresh scope subsystem labels).requestAll requests).known.get? name =
        (requests.find? fun r => r.1 = name).map fun r => (fresh scope subsystem labels).build name r.2 :=
      (get?_requestAll _ _ _).trans Option.none_or
    rw [request_fst, hknown, (sameShape_requestAll _ _).build, firstKind?]
    simp only [build_eq]
    cases requests.find? fun r => r.1 = name <;> rfl
  · rw [← hnames, size, Keyed.size, Keyed.names, List.length_map]
  · rw [contains, Keyed.contains_iff, hnames, List.mem_eraseDups]

theorem contains_after (c : DescriptorCache) (records : List Record) (name : String) :
    (c.after records).contains name ↔ c.contains name ∨ name ∈ records.map Record.name := by
  unfold contains Keyed.contains
  rw [get?_after, Option.isSome_or, Bool.or_eq_true, Option.isSome_map, List.find?_isSome]
  simp only [decide_eq_true_eq, List.mem_map]

end DescriptorCache

namespace Collector

theorem mem_names_records {m : Machine} {c : Collector} {name : String} :
    name ∈ (c.records m).map Record.name ↔
      ∃ records, (c.read m).result = .ok records ∧ name ∈ records.map Record.name := by
  unfold records
  cases (c.read m).result with
  | error fault => simp [Except.toOption]
  | ok records => simp [Except.toOption]

theorem records_of_fails {m : Machine} {c : Collector} (h : c.fails m = true) : c.records m = [] := by
  rw [records, Option.isNone_iff_eq_none.1 h, Option.getD_none]

end Collector

namespace Exporter

/-! ## Passes of an exporter -/

/-- What is done with an exporter: a pass whose families are not asked for, or a scrape. -/
inductive Act where
  | pass (m : Machine) (clock : Clock)
  | scrape (m : Machine) (clock : Clock)

def Act.machine : Act → Machine
  | pass m _ => m
  | scrape m _ => m

def act (e : Exporter) : Act → Exporter
  | .pass m clock => { e with collectors := (e.pass m clock).collectors }
  | .scrape m clock => (e.scrape m clock).exporter

def acts (e : Exporter) (l : List Act) : Exporter := l.foldl act e

/-- The families of the pass are built. -/
def Builds (e : Exporter) : Act → Prop
  | .pass _ _ => False
  | .scrape m clock => ∃ families, (e.scrape m clock).families = .ok families

/-- The families are built, and the collector of a subject has a record of this name for them. -/
def Brings (e : Exporter) (a : Act) (s : Subject) (name : String) : Prop :=
  e.Builds a ∧ ∃ c ∈ e.collectors, c.subject = s ∧
    ∃ records, (c.read a.machine).result = .ok records ∧ name ∈ records.map Record.name

section Acts
variable {config : Config} {version : String} {e : Exporter}

theorem Sound.act (h : Sound config version e) (a : Act) : Sound config version (e.act a) := by
  cases a with
  | pass m clock => exact h.pass m clock
  | scrape m clock => exact h.scrape m clock

theorem Sound.acts (h : Sound config version e) (l : List Act) : Sound config version (e.acts l) := by
  induction l generalizing e with
  | nil => exact h
  | cons a l ih => exact ih (h.act a)

/-- A pass without families touches no cache. -/
theorem cache_turns (m : Machine) (clock : Clock) {cs : List Collector} {c' : Collector}
    (hc' : c' ∈ (turns m clock cs).collectors) : ∃ c ∈ cs, c'.subject = c.subject ∧ c'.cache = c.cache := by
  obtain ⟨c, hc, rfl | rfl⟩ := Table.exists_of_forall₂ (forall₂_turns m clock cs) c' hc'
  · exact ⟨c', hc, rfl, rfl⟩
  · exact ⟨c, hc, Collector.subject_read m c, rfl⟩

/-- The step: if the families are built, a collector's cache has been asked for its records,
and if not, it is as it was. -/
theorem Sound.cache_act (h : Sound config version e) (a : Act) {c' : Collector} (hc' : c' ∈ (e.act a).collectors) :
    ∃ c ∈ e.collectors, c'.subject = c.subject ∧
      (e.Builds a → c'.cache = c.cache.after (c.records a.machine)) ∧ (¬ e.Builds a → c'.cache = c.cache) := by
  cases a with
  | pass m clock =>
    obtain ⟨c, hc, hsubject, hcache⟩ := cache_turns m clock hc'
    exact ⟨c, hc, hsubject, nofun, fun _ => hcache⟩
  | scrape m clock =>
    cases ho : (e.pass m clock).outcomes with
    | error fault =>
      simp only [Exporter.act, Exporter.scrape, ho] at hc'
      obtain ⟨c, hc, hsubject, hcache⟩ := cache_turns m clock hc'
      refine ⟨c, hc, hsubject, ?_, fun _ => hcache⟩
      rintro ⟨families, hf⟩
      simp [Exporter.scrape, ho] at hf
    | ok outcomes =>
      have hs := h.scrape_eq (turns_eq_ok ho).2
      simp only [Exporter.act, hs] at hc'
      obtain ⟨c, hc, rfl⟩ := List.mem_map.1 hc'
      refine ⟨c, hc, ((h.collectors c hc).scrape m).2, fun _ => ?_, fun hn => absurd ⟨_, by rw [hs]⟩ hn⟩
      rw [(h.collectors c hc).scrape_eq m]
      rfl

/-- A name is new to the cache after a pass exactly if the pass brings it. -/
theorem Sound.contains_act (h : Sound config version e) (a : Act) {c' : Collector} (hc' : c' ∈ (e.act a).collectors) :
    ∃ c ∈ e.collectors, c'.subject = c.subject ∧
      ∀ name, c'.cache.contains name ↔ c.cache.contains name ∨ e.Brings a c'.subject name := by
  obtain ⟨c, hc, hsubject, hbuilt, hunbuilt⟩ := h.cache_act a hc'
  refine ⟨c, hc, hsubject, fun name => ?_⟩
  by_cases hb : e.Builds a
  · rw [hbuilt hb, DescriptorCache.contains_after, Collector.mem_names_records]
    refine or_congr_right ⟨fun hr => ⟨hb, c, hc, hsubject.symm, hr⟩, ?_⟩
    rintro ⟨-, d, hd, hds, hr⟩
    rwa [← List.inj_on_of_nodup_map h.nodup_subjects hd hc (hds.trans hsubject)]
  · rw [hunbuilt hb]
    exact (or_iff_left fun hbrings => hb hbrings.1).symm

/-- The run: a name that was not known in the beginning was brought by one of the passes. -/
theorem Sound.contains_acts (h : Sound config version e) {l : List Act} {c' : Collector}
    (hc' : c' ∈ (e.acts l).collectors) :
    ∃ c ∈ e.collectors, c'.subject = c.subject ∧ ∀ name, c'.cache.contains name ↔ c.cache.contains name ∨
      ∃ before a after, l = before ++ a :: after ∧ (e.acts before).Brings a c'.subject name := by
  induction l generalizing e with
  | nil => exact ⟨c', hc', rfl, fun name => by simp⟩
  | cons a l ih =>
    obtain ⟨c₁, hc₁, hs₁, hnames₁⟩ := ih (h.act a) hc'
    obtain ⟨c, hc, hs, hnames⟩ := h.contains_act a hc₁
    refine ⟨c, hc, hs₁.trans hs, fun name => ?_⟩
    rw [hnames₁ name, hnames name, hs₁, or_assoc]
    refine or_congr_right ⟨?_, ?_⟩
    · rintro (hb | ⟨before, a', after, rfl, hb⟩)
      · exact ⟨[], a, l, rfl, hb⟩
      · exact ⟨a :: before, a', after, rfl, hb⟩
    · rintro ⟨before, a', after, he, hb⟩
      rcases before with _ | ⟨x, before⟩
      · cases he
        exact .inl hb
      · cases he
        exact .inr ⟨before, a', after, rfl, hb⟩

end Acts

/-- **The history of a cache.** Whatever a new cache is asked for, it remembers of each name what
the first request built. Whatever passes an exporter makes, with families or without, the cache
of each of its collectors knows the names of that collector's records in the passes whose
families were built, and no other; a pass without families, or one in which the collector
fails, leaves the cache as it was. -/
theorem cache_history :
    (∀ scope subsystem labels requests, DescriptorCache.Remembers scope subsystem labels requests
      ((DescriptorCache.fresh scope subsystem labels).requestAll requests)) ∧
    ∀ config version e, ofConfig config version = .ok e → ∀ l, ∀ c ∈ (e.acts l).collectors,
      (∀ name, c.cache.contains name ↔
        ∃ before a after, l = before ++ a :: after ∧ (e.acts before).Brings a c.subject name) ∧
      ∀ a, ∀ c' ∈ ((e.acts l).act a).collectors, c'.subject = c.subject →
        ¬ (e.acts l).Builds a ∨ c.fails a.machine → c'.cache = c.cache := by
  refine ⟨DescriptorCache.remembers_requestAll, fun config version e he l c hc => ⟨fun name => ?_, ?_⟩⟩
  · obtain ⟨c₀, hc₀, -, hnames⟩ := (sound_ofConfig he).contains_acts hc
    obtain ⟨s, -, rfl⟩ := (mem_collectors he).1 hc₀
    have hnew : ¬ (Collector.ofConfig config s).cache.contains name := nofun
    rw [hnames name, or_iff_right hnew]
  · intro a c' hc' hsubject hnone
    have h := (sound_ofConfig he).acts l
    obtain ⟨c₁, hc₁, hs₁, hbuilt, hunbuilt⟩ := h.cache_act a hc'
    obtain rfl : c₁ = c := List.inj_on_of_nodup_map h.nodup_subjects hc₁ hc (hs₁.symm.trans hsubject)
    by_cases hb : (e.acts l).Builds a
    · rw [hbuilt hb, Collector.records_of_fails (hnone.resolve_left (not_not.2 hb))]
      rfl
    · exact hunbuilt hb

/-- The nodes' collector has met a count in a scrape, and a pass without families changes nothing. -/
theorem cache_history_bothFresh :
    ∃ c ∈ (bothFresh.acts [.scrape nodeAlone seconds]).collectors, c.subject = .nodes ∧
      (∃ before a after, [Act.scrape nodeAlone seconds] = before ++ a :: after ∧
        (bothFresh.acts before).Brings a .nodes "numa_hit_total") ∧
      ∀ c' ∈ ((bothFresh.acts [.scrape nodeAlone seconds]).act (.pass nodeAlone seconds)).collectors,
        c'.subject = .nodes → c'.cache = c.cache := by
  obtain ⟨c, hc, hs, hk⟩ : ∃ c ∈ (bothFresh.acts [.scrape nodeAlone seconds]).collectors,
      c.subject = .nodes ∧ c.cache.contains "numa_hit_total" := by decide +kernel
  obtain ⟨hnames, hkept⟩ := cache_history.2 bothEnabled "0.1.0" bothFresh rfl [.scrape nodeAlone seconds] c hc
  refine ⟨c, hc, hs, hs ▸ (hnames "numa_hit_total").1 hk, fun c' hc' hs' => ?_⟩
  exact hkept (.pass nodeAlone seconds) c' hc' (hs'.trans hs.symm) (.inl nofun)

end Exporter

end NodeMemory
