import Mathlib.Data.List.Nodup
import NodeMemory.Family
import NodeMemory.Proofs.Descriptors
import NodeMemory.Proofs.LastValues
import NodeMemory.Proofs.MetricNames
/-!
# Records grouped into families

The loop over the records keeps one invariant (`Groups`): after some of them there is
a family for every name among them, in the order of first occurrence, and it holds the
samples of the records with that name. With it, `collect_eq` says in one line what the
families of a pass are: one for each name, described by the cache as it is afterwards.
-/

namespace NodeMemory

/-! ## Tables of values that depend on their names -/

section Lists
variable {α : Type} [DecidableEq α]

/-- The parts of a list under distinct keys, put one after another, are what has one of
the keys. -/
theorem flatMap_filter_perm {β : Type} (key : β → α) (l : List β) {ks : List α} (h : ks.Nodup) :
    (ks.flatMap fun k => l.filter fun x => key x = k).Perm (l.filter fun x => key x ∈ ks) := by
  induction ks with
  | nil => simp
  | cons k ks ih =>
    obtain ⟨hk, hks⟩ := List.nodup_cons.1 h
    have h1 : (l.filter fun x => key x ∈ k :: ks).filter (fun x => key x = k) = l.filter fun x => key x = k := by
      rw [List.filter_filter]
      refine List.filter_congr fun x _ => ?_
      by_cases hx : key x = k <;> simp [hx]
    have h2 : (l.filter fun x => key x ∈ k :: ks).filter (fun x => !decide (key x = k)) = l.filter fun x => key x ∈ ks := by
      rw [List.filter_filter]
      refine List.filter_congr fun x _ => ?_
      by_cases hx : key x = k <;> simp [hx, hk]
    have hp := List.filter_append_perm (fun x => decide (key x = k)) (l.filter fun x => key x ∈ k :: ks)
    rw [h1, h2] at hp
    exact ((ih hks).append_left _).trans hp

end Lists

namespace Entries

variable {β : Type}

theorem find?_map (name : String) (f : String → β) (l : List String) :
    find? name (l.map fun k => (k, f k)) = if name ∈ l then some (f name) else none := by
  induction l with
  | nil => rfl
  | cons k l ih =>
    by_cases h : k = name
    · simp [find?, h]
    · have h' : name ≠ k := fun e => h e.symm
      simp only [List.map_cons, find?, h, if_false, ih, List.mem_cons, h', false_or]

theorem insert_map (name : String) (v : β) (f : String → β) {l : List String} (hl : l.Nodup) :
    insert name v (l.map fun k => (k, f k)) =
      (if name ∈ l then l else l ++ [name]).map fun k => (k, if k = name then v else f k) := by
  induction l with
  | nil => simp [insert]
  | cons k l ih =>
    obtain ⟨hk, hl⟩ := List.nodup_cons.1 hl
    by_cases h : k = name
    · subst h
      simp only [List.map_cons, insert, if_true, List.mem_cons, true_or]
      congr 1
      refine List.map_congr_left fun x hx => ?_
      have hx : x ≠ k := fun e => hk (e ▸ hx)
      rw [if_neg hx]
    · have h' : ¬ name = k := fun e => h e.symm
      simp only [List.map_cons, insert, h, if_false, ih hl, List.mem_cons, h', false_or]
      split <;> simp [h]

end Entries

namespace Family

/-! ## The family of a name -/

/-- The sample of a record, as a cache describes its name. -/
def sampleIn (c : DescriptorCache) (r : Record) : Sample :=
  ⟨writtenName (c.descriptor r.name), (c.descriptor r.name).labels.zip (labelValues c r), r.value⟩

/-- The family of a name with the samples of some records, as a cache describes it. -/
def familyOf (c : DescriptorCache) (records : List Record) (name : String) : Family :=
  let d := c.descriptor name
  ⟨baseName d.fullName d.kind, d.documentation, d.kind, d.labels,
    (records.filter fun r => r.name = name).map (sampleIn c)⟩

/-- One family for each name, in the order of first occurrence. -/
def grouped (c : DescriptorCache) (records : List Record) : List Family :=
  ((records.map Record.name).eraseDups).map (familyOf c records)

/-- A cache describes a name so that its family has a name. -/
def Named (c : DescriptorCache) (name : String) : Prop :=
  baseName (c.descriptor name).fullName (c.descriptor name).kind ≠ ""

theorem familyOf_concat_self (c : DescriptorCache) (records : List Record) (r : Record) :
    (familyOf c records r.name).add (labelValues c r) r.value = familyOf c (records ++ [r]) r.name := by
  have hname : ∀ f : Family, f = familyOf c records r.name → f.sampleName = writtenName (c.descriptor r.name) := by
    rintro _ rfl
    rfl
  simp only [Family.add, hname _ rfl]
  simp [familyOf, sampleIn]

theorem familyOf_concat_of_ne (c : DescriptorCache) (records : List Record) {r : Record} {name : String}
    (h : name ≠ r.name) : familyOf c (records ++ [r]) name = familyOf c records name := by
  have : ¬ r.name = name := fun e => h e.symm
  simp [familyOf, this]

theorem ofDescriptor?_eq {c : DescriptorCache} (records : List Record) {name : String} (h : Named c name)
    (hn : name ∉ records.map Record.name) : ofDescriptor? (c.descriptor name) = some (familyOf c records name) := by
  have hf : records.filter (fun r => r.name = name) = [] := by
    rw [List.filter_eq_nil_iff]
    intro r hr he
    exact hn (List.mem_map.2 ⟨r, hr, by simpa using he⟩)
  have hne : (baseName (c.descriptor name).fullName (c.descriptor name).kind).isEmpty = false := by
    simpa [Named] using h
  simp [ofDescriptor?, familyOf, hf, hne]

/-! ## The loop -/

/-- The families after some records, as the cache at the end describes them. -/
def Groups (c : DescriptorCache) (records : List Record) (families : Keyed Family) : Prop :=
  families.entries = ((records.map Record.name).eraseDups).map fun name => (name, familyOf c records name)

theorem groups_nil (c : DescriptorCache) : Groups c [] .empty := rfl

theorem Groups.get? {c : DescriptorCache} {records : List Record} {families : Keyed Family}
    (h : Groups c records families) (name : String) :
    families.get? name = if name ∈ records.map Record.name then some (familyOf c records name) else none := by
  rw [Keyed.get?, h, Entries.find?_map]
  simp only [List.mem_eraseDups]

/-- One record goes into the family of its name, and the other families stay. -/
theorem Groups.insert {c : DescriptorCache} {records : List Record} {families : Keyed Family}
    (h : Groups c records families) (r : Record) :
    Groups c (records ++ [r]) (families.insert r.name (familyOf c (records ++ [r]) r.name)) := by
  show Entries.insert _ _ families.entries = _
  rw [h, Entries.insert_map _ _ _ (nodup_eraseDups _), List.map_append, List.map_cons, List.map_nil, eraseDups_concat]
  simp only [List.mem_eraseDups]
  refine List.map_congr_left fun name _ => ?_
  by_cases hn : name = r.name
  · rw [if_pos hn, hn]
  · rw [if_neg hn, familyOf_concat_of_ne c records hn]

/-- From a state that fits the records so far, the loop comes to the families of all
records. `c` is the cache at the end, which the cache on the way agrees with on what
it knows. -/
theorem collectFrom_eq {cache c : DescriptorCache} {families : Keyed Family} {records rest : List Record}
    (hg : Groups c records families) (hc : cache.after rest = c) (hn : ∀ r ∈ rest, Named c r.name)
    (hk : ∀ r ∈ records, cache.known.get? r.name = some (c.descriptor r.name)) :
    collectFrom cache families rest = (some (grouped c (records ++ rest)), c) := by
  induction rest generalizing cache families records with
  | nil =>
    obtain rfl : cache = c := hc
    unfold Groups at hg
    rw [collectFrom, hg, List.append_nil, List.map_map]
    rfl
  | cons r rs ih =>
    have hlabels : labelValues cache r = labelValues c r := by
      rw [labelValues, labelValues, ← hc, (DescriptorCache.sameShape_after cache _).2.2]
    have hrs : ∀ x ∈ rs, Named c x.name := fun x hx => hn x (by simp [hx])
    rw [DescriptorCache.after_cons] at hc
    rw [collectFrom, hg.get? r.name]
    by_cases hr : r.name ∈ records.map Record.name
    · -- The name was met before: its descriptor is known and its family there.
      obtain ⟨r', hr', he⟩ := List.mem_map.1 hr
      have hd : cache.known.get? r.name = some (c.descriptor r.name) := he ▸ hk r' hr'
      rw [DescriptorCache.request_of_some hd] at hc
      simp only [hr, if_true]
      rw [hlabels, familyOf_concat_self, ih (hg.insert r) hc hrs]
      · simp
      · intro x hx
        rcases List.mem_append.1 hx with hx | hx
        · exact hk x hx
        · rw [List.mem_singleton.1 hx]
          exact hd
    · -- The name is new here; the cache may know it from an earlier pass.
      have hd : (cache.request r.name r.kind).2.known.get? r.name = some (cache.request r.name r.kind).1 := by
        rw [DescriptorCache.get?_request, if_pos rfl, DescriptorCache.request_fst]
      have hdc : c.descriptor r.name = (cache.request r.name r.kind).1 :=
        DescriptorCache.descriptor_of_some (hc ▸ DescriptorCache.get?_after_of_some hd rs)
      have hl : labelValues (cache.request r.name r.kind).2 r = labelValues c r := by
        rw [← hlabels, labelValues, labelValues, (DescriptorCache.sameShape_request cache _ _).2.2]
      simp only [hr, if_false]
      rw [← hdc, ofDescriptor?_eq records (hn r (by simp)) hr]
      simp only [hl]
      rw [familyOf_concat_self, ih (hg.insert r) hc hrs]
      · simp
      · intro x hx
        rcases List.mem_append.1 hx with hx | hx
        · have hne : x.name ≠ r.name := fun e => hr (List.mem_map.2 ⟨x, hx, e⟩)
          rw [DescriptorCache.get?_request, if_neg hne]
          exact hk x hx
        · rw [List.mem_singleton.1 hx, hd, hdc]

/-- The families of the records of a pass: one for each name, described by the cache
as it is afterwards. -/
theorem collect_eq {cache : DescriptorCache} {records : List Record}
    (h : ∀ r ∈ records, Named (cache.after records) r.name) :
    collect cache records = (some (grouped (cache.after records) records), cache.after records) :=
  collectFrom_eq (groups_nil _) rfl h (by simp)

/-- Grouping loses no sample and adds none. -/
theorem samples_grouped_perm (c : DescriptorCache) (records : List Record) :
    ((grouped c records).flatMap Family.samples).Perm (records.map (sampleIn c)) := by
  have hp := flatMap_filter_perm Record.name records (nodup_eraseDups (records.map Record.name))
  have hall : (records.filter fun r => r.name ∈ (records.map Record.name).eraseDups) = records :=
    List.filter_eq_self.2 fun r hr => by simpa using ⟨r, hr, rfl⟩
  rw [hall] at hp
  have hm := hp.map (sampleIn c)
  rw [List.map_flatMap] at hm
  rwa [grouped, List.flatMap_map]

end Family

end NodeMemory
