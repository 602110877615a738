import NodeMemory.Collector
import NodeMemory.Proofs.MetricNames
import NodeMemory.Proofs.NodePass
import NodeMemory.Proofs.RecordSets
import NodeMemory.Proofs.Tables
/-!
# What a reading gives

The records of a reading are valid together, and each is one that the tables of its
subject can give (`fits_of_read`). On the machine's table the name tells the kind; on
the nodes' tables the kind comes from the table, but a counter is never without
`_total` at the end of its name.
-/

namespace NodeMemory

/-- A record that the source of a subject can give. -/
def Subject.Admits : Subject → Record → Prop
  | machine, r => r.node = "" ∧ r.kind = .ofName r.name
  | nodes, r => r.kind = .counter → endsWith r.name counterSuffix

/-- Records that a reading of a subject can give. -/
def Subject.Fits (s : Subject) (records : List Record) : Prop :=
  Record.Valid records ∧ ∀ r ∈ records, s.Admits r

/-- Only names that end in `_total` are counted, whatever the subject. -/
theorem Subject.Admits.endsWith {s : Subject} {r : Record} (h : s.Admits r) (hk : r.kind = .counter) :
    endsWith r.name counterSuffix := by
  cases s with
  | machine => exact Kind.ofName_eq_counter_iff.1 (h.2 ▸ hk)
  | nodes => exact h hk

/-! ## The tables of a node -/

namespace NodeTable

theorem kind_of_gauge {line : String} {r : Record} (h : gauge line = .ok r) : r.kind = .gauge := by
  unfold gauge at h
  split at h
  · split at h
    · cases h
    · split at h
      · cases h; rfl
      · split at h
        · cases h; rfl
        · cases h
  · cases h

theorem of_counter {node line : String} {r : Record} (h : counter node line = .ok r) :
    r.kind = .counter ∧ r.node = node ∧ endsWith r.name counterSuffix := by
  unfold counter at h
  split at h
  · split at h
    · cases h
    · cases h
      exact ⟨rfl, rfl, endsWith_append_self _ _⟩
  · cases h

/-- Every record comes from a line. -/
theorem exists_line {record : String → Except Fault Record} {lines : List String} {records : List Record}
    (h : readWith record lines = .ok records) : ∀ r ∈ records, ∃ line, record line = .ok r := by
  rw [readWith_eq_entries] at h
  intro r hr
  obtain ⟨raw, -, he⟩ := Table.exists_line_of_mem h r hr
  exact ⟨_, (entry_eq_some_iff.1 he).2⟩

end NodeTable

namespace Numa

/-- A directory's memory lines are gauges and its counts are counters. -/
theorem kinds_of_gives {t : FileTree} {d : Path} {gauges counters : List Record} (h : Gives t d gauges counters) :
    (∀ r ∈ gauges, r.kind = .gauge) ∧ ∀ r ∈ counters, r.kind = .counter ∧ endsWith r.name counterSuffix := by
  obtain ⟨memory, counts, id, -, ⟨-, hg⟩, -, -, -, hc⟩ := h
  constructor
  · intro r hr
    obtain ⟨line, hl⟩ := NodeTable.exists_line hg r hr
    exact NodeTable.kind_of_gauge hl
  · intro r hr
    obtain ⟨line, hl⟩ := NodeTable.exists_line hc r hr
    obtain ⟨hk, -, hn⟩ := NodeTable.of_counter hl
    exact ⟨hk, hn⟩

theorem exists_discover {t : FileTree} {root : Path} {records : List Record} (h : read t root = .ok records) :
    ∃ ds, discover t root = .ok ds ∧ readNodes t ds = .ok records := by
  exact bind_eq_ok_iff.1 h

/-- Every record of some directories comes from one of the two tables of one of them. -/
theorem exists_gives {t : FileTree} {ds : List Path} {records : List Record} (h : readNodes t ds = .ok records) :
    ∀ r ∈ records, ∃ d ∈ ds, ∃ gauges counters, Gives t d gauges counters ∧ r ∈ gauges ++ counters := by
  obtain ⟨parts, hp, rfl⟩ := readNodes_eq_ok_iff.1 h
  clear h
  induction hp with
  | nil => simp
  | @cons d p ds parts hd _ ih =>
    intro r hr
    rw [List.flatMap_cons] at hr
    rcases List.mem_append.1 hr with hr | hr
    · exact ⟨d, by simp, p.1, p.2, hd, hr⟩
    · obtain ⟨d', hd', hg⟩ := ih r hr
      exact ⟨d', by simp [hd'], hg⟩

/-- A record of a reading has the kind of the table it comes from. -/
theorem kind_of_read {t : FileTree} {root : Path} {records : List Record} (h : read t root = .ok records) :
    ∀ r ∈ records, ∃ d gauges counters, Gives t d gauges counters ∧
      (r ∈ gauges ∧ r.kind = .gauge ∨ r ∈ counters ∧ r.kind = .counter ∧ endsWith r.name counterSuffix) := by
  obtain ⟨ds, -, hread⟩ := exists_discover h
  intro r hr
  obtain ⟨d, -, gauges, counters, hg, hr⟩ := exists_gives hread r hr
  refine ⟨d, gauges, counters, hg, ?_⟩
  rcases List.mem_append.1 hr with hr | hr
  · exact .inl ⟨hr, (kinds_of_gives hg).1 r hr⟩
  · exact .inr ⟨hr, (kinds_of_gives hg).2 r hr⟩

theorem admits_of_read {t : FileTree} {root : Path} {records : List Record} (h : read t root = .ok records) :
    ∀ r ∈ records, Subject.nodes.Admits r := by
  intro r hr hk
  obtain ⟨d, gauges, counters, -, ⟨-, hg⟩ | ⟨-, -, hn⟩⟩ := kind_of_read h r hr
  · rw [hg] at hk
    cases hk
  · exact hn

end Numa

/-! ## A collector's reading -/

theorem Record.admits_ofFigures (figures : Keyed Binary64) : ∀ r ∈ ofFigures figures, Subject.machine.Admits r := by
  intro r hr
  obtain ⟨e, -, rfl⟩ := List.mem_map.1 hr
  exact ⟨rfl, rfl⟩

namespace Source

theorem admits_of_read {m : Machine} {s : Source} {records : List Record} (h : (s.read m).1 = .ok records) :
    ∀ r ∈ records, s.subject.Admits r := by
  have of_map {figures : Except Fault (Keyed Binary64)} (h : figures.map Record.ofFigures = .ok records) :
      ∀ r ∈ records, Subject.machine.Admits r := by
    obtain ⟨table, -, rfl⟩ := map_eq_ok_iff.1 h
    exact Record.admits_ofFigures table
  cases s with
  | table file => exact of_map h
  | native source => exact of_map h
  | nodes root => exact Numa.admits_of_read h

/-- A source stays with its subject. -/
theorem subject_read (m : Machine) (s : Source) : (s.read m).2.2.subject = s.subject := by
  cases s <;> rfl

end Source

namespace Collector

theorem validate_eq_ok_iff {records valid : List Record} :
    validate records = .ok valid ↔ valid = records ∧ Record.Valid records := by
  unfold validate
  rw [← Record.check_eq_ok_iff]
  cases Record.check records with
  | error f => simp
  | ok u => simp [eq_comm]

theorem read_eq_ok_iff {m : Machine} {c : Collector} {records : List Record} :
    (c.read m).result = .ok records ↔ (c.source.read m).1 = .ok records ∧ Record.Valid records := by
  unfold read
  cases h : (c.source.read m).1 with
  | error f => simp [h]
  | ok found =>
    simp only [h, validate_eq_ok_iff, Except.ok.injEq]
    exact ⟨fun ⟨e, hv⟩ => ⟨e.symm, e ▸ hv⟩, fun ⟨e, hv⟩ => ⟨e.symm, e ▸ hv⟩⟩

/-- The records of a reading are valid together and fit their subject. -/
theorem fits_of_read {m : Machine} {c : Collector} {records : List Record} (h : (c.read m).result = .ok records) :
    c.subject.Fits records := by
  obtain ⟨hs, hv⟩ := read_eq_ok_iff.1 h
  exact ⟨hv, Source.admits_of_read hs⟩

theorem subject_read (m : Machine) (c : Collector) : (c.read m).collector.subject = c.subject :=
  Source.subject_read m c.source

end Collector

end NodeMemory
