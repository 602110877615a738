import NodeMemory.Proofs.Grouping
/-!
# What families hold

Records are grouped without loss (`collect_contents`): the families follow the names of the records
in the order of first occurrence, each is described by what the cache knows of its name in the end,
and its samples are the records of that name in their order. A cache that came about by requests
has the same labels for every name, so a record's node stands under the cache's own first label.
-/

namespace NodeMemory

namespace DescriptorCache

/-- Whatever a new cache was asked for, what it knows has its own labels. -/
theorem labels_of_requestAll {scope subsystem : String} {labels : List String} {requests : List (String × Kind)}
    {name : String} {d : Descriptor}
    (h : ((fresh scope subsystem labels).requestAll requests).known.get? name = some d) : d.labels = labels := by
  rw [get?_requestAll, Option.or_eq_some_iff] at h
  rcases h with h | ⟨-, h⟩
  · cases h
  · obtain ⟨r, -, rfl⟩ := Option.map_eq_some_iff.1 h
    rfl

end DescriptorCache

namespace Family

/-- The label of a sample: the node, under the first of some label names. -/
def nodeLabel (node : String) : List String → List (String × String)
  | [] => []
  | first :: _ => [(first, node)]

/-- The family of a record name: the cache's entry for the name describes it, and it has a sample for each
record of that name, in their order. -/
structure Holds (cache : DescriptorCache) (records : List Record) (name : String) (f : Family) : Prop where
  described : ∃ d, cache.known.get? name = some d ∧ f.name = baseName d.fullName d.kind ∧ f.kind = d.kind ∧
    f.documentation = d.documentation ∧ f.labels = d.labels
  samples_eq : f.samples.map (fun s => (s.labels, s.value)) =
    (records.filter fun r => r.name = name).map fun r => (nodeLabel r.node cache.labels, r.value)

theorem zip_labelValues (cache : DescriptorCache) (r : Record) :
    cache.labels.zip (labelValues cache r) = nodeLabel r.node cache.labels := by
  rw [labelValues]
  cases cache.labels with
  | nil => rfl
  | cons first more => simp [nodeLabel]

theorem holds_familyOf {cache : DescriptorCache} {records : List Record} {name : String} {d : Descriptor}
    (hd : cache.known.get? name = some d) (hl : d.labels = cache.labels) :
    Holds cache records name (familyOf cache records name) := by
  have hdescriptor := DescriptorCache.descriptor_of_some hd
  refine ⟨⟨d, hd, ?_⟩, ?_⟩
  · simp only [familyOf, hdescriptor, and_self]
  · rw [familyOf, List.map_map]
    refine List.map_congr_left fun r hr => ?_
    obtain rfl : r.name = name := by simpa using (List.mem_filter.1 hr).2
    simp only [Function.comp_apply, sampleIn, hdescriptor, hl, zip_labelValues]

/-- **Grouping without loss.** Whatever a cache was asked for before, records whose families have names are
grouped into one family for each name, in the order of first occurrence. The cache's entry after the call
describes the family, and its samples are the records of that name in their order. There are as many
samples as records. -/
theorem collect_contents {scope subsystem : String} {labels : List String} {requests : List (String × Kind)}
    {cache : DescriptorCache} (hcache : cache = (DescriptorCache.fresh scope subsystem labels).requestAll requests)
    {records : List Record} (hn : ∀ r ∈ records, Named (cache.after records) r.name) :
    ∃ families, collect cache records = (some families, cache.after records) ∧
      List.Forall₂ (Holds (cache.after records) records) (records.map Record.name).eraseDups families ∧
      (families.flatMap Family.samples).length = records.length := by
  refine ⟨_, collect_eq hn, ?_, ?_⟩
  · rw [grouped, List.forall₂_map_right_iff, List.forall₂_same]
    intro name hname
    obtain ⟨r, hr, rfl⟩ := List.mem_map.1 (List.mem_eraseDups.1 hname)
    obtain ⟨d, hd⟩ := Option.isSome_iff_exists.1 (DescriptorCache.isSome_get?_after cache hr)
    refine holds_familyOf hd ?_
    rw [(DescriptorCache.sameShape_after cache records).2.2, hcache, (DescriptorCache.sameShape_requestAll _ _).2.2]
    rw [DescriptorCache.after_eq, hcache, ← DescriptorCache.requestAll_append] at hd
    exact DescriptorCache.labels_of_requestAll hd
  · rw [(samples_grouped_perm _ records).length_eq, List.length_map]

/-- The records of two names alternate, and one of the names was met before as a counter. -/
theorem collect_contents_interleaved :
    let cache := (DescriptorCache.fresh "node" "memory" ["node"]).requestAll [("B", .counter)]
    let records : List Record := [⟨"A", .gauge, .zero, "0"⟩, ⟨"B", .gauge, .zero, "0"⟩, ⟨"A", .gauge, .zero, "1"⟩]
    ∃ families, collect cache records = (some families, cache.after records) ∧
      List.Forall₂ (Holds (cache.after records) records) ["A", "B"] families ∧
      (families.flatMap Family.samples).length = 3 :=
  collect_contents rfl (by simp only [List.forall_mem_cons, Named]; decide)

end Family

end NodeMemory
