import NodeMemory.Descriptor
/-!
# What a descriptor cache knows

A request never changes what is known of a name, and what it adds is built from the
first record that asks (`get?_after`): whatever comes later, the first kind stays.
-/

namespace NodeMemory.DescriptorCache

/-! ## One request -/

theorem request_of_some {c : DescriptorCache} {name : String} {d : Descriptor} (h : c.known.get? name = some d)
    (kind : Kind) : c.request name kind = (d, c) := by
  simp only [request, h]

theorem request_of_none {c : DescriptorCache} {name : String} (h : c.known.get? name = none) (kind : Kind) :
    c.request name kind = (c.build name kind, { c with known := c.known.insert name (c.build name kind) }) := by
  simp only [request, h]

/-- What is known of a name after a request for another, or for itself. -/
theorem get?_request (c : DescriptorCache) (name other : String) (kind : Kind) :
    (c.request name kind).2.known.get? other =
      if other = name then some ((c.known.get? name).getD (c.build name kind)) else c.known.get? other := by
  cases h : c.known.get? name with
  | some d =>
    rw [request_of_some h]
    split
    · subst_vars
      exact h
    · rfl
  | none =>
    rw [request_of_none h]
    split
    · subst_vars
      exact Keyed.get?_insert_self _ _ _
    · next hne => exact Keyed.get?_insert_ne _ hne _

theorem request_fst (c : DescriptorCache) (name : String) (kind : Kind) :
    (c.request name kind).1 = (c.known.get? name).getD (c.build name kind) := by
  cases h : c.known.get? name with
  | some d => rw [request_of_some h]; rfl
  | none => rw [request_of_none h]; rfl

/-- Caches that differ in what they know alone. -/
def SameShape (a b : DescriptorCache) : Prop := a.scope = b.scope ∧ a.subsystem = b.subsystem ∧ a.labels = b.labels

theorem SameShape.build {a b : DescriptorCache} (h : SameShape a b) (name : String) (kind : Kind) :
    a.build name kind = b.build name kind := by
  simp only [DescriptorCache.build, h.1, h.2.1, h.2.2]

theorem sameShape_request (c : DescriptorCache) (name : String) (kind : Kind) :
    SameShape (c.request name kind).2 c := by
  cases h : c.known.get? name with
  | some d => rw [request_of_some h]; exact ⟨rfl, rfl, rfl⟩
  | none => rw [request_of_none h]; exact ⟨rfl, rfl, rfl⟩

/-! ## Many requests -/

/-- The cache after some requests, each for a name and with a kind. -/
def requestAll (c : DescriptorCache) (requests : List (String × Kind)) : DescriptorCache :=
  requests.foldl (fun c r => (c.request r.1 r.2).2) c

theorem requestAll_append (c : DescriptorCache) (a b : List (String × Kind)) :
    c.requestAll (a ++ b) = (c.requestAll a).requestAll b := List.foldl_append

theorem sameShape_requestAll (c : DescriptorCache) (requests : List (String × Kind)) :
    SameShape (c.requestAll requests) c := by
  induction requests generalizing c with
  | nil => exact ⟨rfl, rfl, rfl⟩
  | cons r rs ih =>
    obtain ⟨h1, h2, h3⟩ := ih (c.request r.1 r.2).2
    obtain ⟨g1, g2, g3⟩ := sameShape_request c r.1 r.2
    exact ⟨h1.trans g1, h2.trans g2, h3.trans g3⟩

/-- What is known of a name stays. Of another name, the first request settles what is known. -/
theorem get?_requestAll (c : DescriptorCache) (requests : List (String × Kind)) (name : String) :
    (c.requestAll requests).known.get? name =
      (c.known.get? name).or ((requests.find? fun r => r.1 = name).map fun r => c.build name r.2) := by
  induction requests generalizing c with
  | nil => simp [requestAll]
  | cons r rs ih =>
    have hcons : c.requestAll (r :: rs) = (c.request r.1 r.2).2.requestAll rs := rfl
    rw [hcons, ih, get?_request]
    by_cases h : name = r.1
    · subst h
      cases c.known.get? r.1 <;> simp
    · have h' : ¬ r.1 = name := fun e => h e.symm
      simp only [h, if_false, (sameShape_request c r.1 r.2).build, List.find?_cons, h', decide_false]

/-! ## The requests of some records -/

/-- The cache after a request for each of the records. -/
def after (c : DescriptorCache) (records : List Record) : DescriptorCache :=
  records.foldl (fun c r => (c.request r.name r.kind).2) c

theorem after_eq (c : DescriptorCache) (records : List Record) :
    c.after records = c.requestAll (records.map fun r => (r.name, r.kind)) := by
  rw [after, requestAll, List.foldl_map]

theorem after_cons (c : DescriptorCache) (r : Record) (records : List Record) :
    c.after (r :: records) = (c.request r.name r.kind).2.after records := rfl

theorem after_append (c : DescriptorCache) (a b : List Record) : c.after (a ++ b) = (c.after a).after b :=
  List.foldl_append

theorem sameShape_after (c : DescriptorCache) (records : List Record) : SameShape (c.after records) c :=
  after_eq c records ▸ sameShape_requestAll c _

/-- What is known of a name stays. Of another name, the first record with that name
settles what is known. -/
theorem get?_after (c : DescriptorCache) (records : List Record) (name : String) :
    (c.after records).known.get? name =
      (c.known.get? name).or ((records.find? fun r => r.name = name).map fun r => c.build name r.kind) := by
  rw [after_eq, get?_requestAll, List.find?_map, Option.map_map]
  rfl

/-- What is known afterwards was known before, or a record with the name brought it. -/
theorem known_or_brought {c : DescriptorCache} {records : List Record} {name : String} {d : Descriptor}
    (h : (c.after records).known.get? name = some d) :
    c.known.get? name = some d ∨ ∃ r ∈ records, r.name = name ∧ d = c.build name r.kind := by
  rw [get?_after, Option.or_eq_some_iff] at h
  rcases h with h | ⟨-, h⟩
  · exact .inl h
  · obtain ⟨r, hf, rfl⟩ := Option.map_eq_some_iff.1 h
    exact .inr ⟨r, List.mem_of_find?_eq_some hf, by simpa using List.find?_some hf, rfl⟩

theorem get?_after_of_some {c : DescriptorCache} {name : String} {d : Descriptor} (h : c.known.get? name = some d)
    (records : List Record) : (c.after records).known.get? name = some d := by
  rw [get?_after, h, Option.some_or]

/-- The name of every record is known afterwards. -/
theorem isSome_get?_after (c : DescriptorCache) {records : List Record} {r : Record} (h : r ∈ records) :
    ((c.after records).known.get? r.name).isSome := by
  rw [get?_after]
  have : (records.find? fun x => x.name = r.name).isSome := List.find?_isSome.2 ⟨r, h, by simp⟩
  cases c.known.get? r.name <;> simp [this]

/-- The descriptor of a name that is known. -/
def descriptor (c : DescriptorCache) (name : String) : Descriptor :=
  (c.known.get? name).getD (c.build name .gauge)

theorem descriptor_of_some {c : DescriptorCache} {name : String} {d : Descriptor} (h : c.known.get? name = some d) :
    c.descriptor name = d := by
  rw [descriptor, h, Option.getD_some]

end NodeMemory.DescriptorCache
