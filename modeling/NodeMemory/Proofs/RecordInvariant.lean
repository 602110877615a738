import NodeMemory.Proofs.NodeIds
import NodeMemory.Proofs.RecordNames
/-!
# The records of a reading

Whatever the files and the native library hold, the records that a reading lets through have
names without blanks and parentheses, and no two share name and node. The machine's records
have no node, and the name tells the kind. A node's record is a gauge or a count of one of
the node directories and has its label from there (`records_fit`).
-/

namespace NodeMemory

namespace Numa

/-- A gauge of a node directory: a line of its memory table gives it, and the label is the
line's second field. -/
structure IsGaugeOf (t : FileTree) (d : Path) (r : Record) : Prop where
  kind : r.kind = .gauge
  node : Text.IsWord r.node
  line : ∃ bytes, t.read (d.child "meminfo") = .ok bytes ∧ ∃ line ∈ (Text.FileText.ofBytes bytes).lines,
    NodeTable.entry NodeTable.gauge line = .ok (some r) ∧ (Text.fields line)[1]? = some r.node

/-- A count of a node directory: a line of its table of counts gives it, and the label is the
id that the directory's path ends in. -/
structure IsCountOf (t : FileTree) (d : Path) (r : Record) : Prop where
  kind : r.kind = .counter
  name : endsWith r.name counterSuffix
  node : EndsInId d.text r.node
  line : ∃ bytes, t.read (d.child "numastat") = .ok bytes ∧ ∃ line ∈ (Text.FileText.ofBytes bytes).lines,
    NodeTable.entry (NodeTable.counter r.node) line = .ok (some r)

theorem fits_of_gives {t : FileTree} {d : Path} {gauges counters : List Record} (h : Gives t d gauges counters) :
    (∀ r ∈ gauges, IsGaugeOf t d r ∧ Text.Unbroken r.name) ∧
      ∀ r ∈ counters, IsCountOf t d r ∧ Text.Unbroken r.name := by
  obtain ⟨memory, counts, id, hm, ⟨-, hg⟩, hs, hi, -, hc⟩ := h
  rw [NodeTable.readWith_eq_entries] at hg hc
  constructor
  · intro r hr
    obtain ⟨line, hl, he⟩ := Table.exists_line_of_mem hg r hr
    obtain ⟨hk, hname, hnode, hf⟩ := NodeTable.gauge_fits he
    exact ⟨⟨hk, hnode, memory, hm, line, hl, he, hf⟩, hname⟩
  · intro r hr
    obtain ⟨line, hl, he⟩ := Table.exists_line_of_mem hc r hr
    obtain ⟨hk, rfl, hend, hname⟩ := NodeTable.counter_fits he
    exact ⟨⟨hk, hend, endsInId_of_nodeId hi, counts, hs, line, hl, he⟩, hname⟩

theorem exists_directory {t : FileTree} {root : Path} {records : List Record} (h : read t root = .ok records) :
    ∃ ds, discover t root = .ok ds ∧
      ∀ r ∈ records, Text.Unbroken r.name ∧ ∃ d ∈ ds, IsGaugeOf t d r ∨ IsCountOf t d r := by
  obtain ⟨ds, hd, hread⟩ := exists_discover h
  refine ⟨ds, hd, fun r hr => ?_⟩
  obtain ⟨d, hdm, gauges, counters, hg, hr⟩ := exists_gives hread r hr
  rcases List.mem_append.1 hr with hr | hr
  · obtain ⟨hf, hname⟩ := (fits_of_gives hg).1 r hr
    exact ⟨hname, d, hdm, .inl hf⟩
  · obtain ⟨hf, hname⟩ := (fits_of_gives hg).2 r hr
    exact ⟨hname, d, hdm, .inr hf⟩

end Numa

theorem Meminfo.read_of_readFile {bytes : List UInt8} {figures : Keyed Binary64}
    (h : readFile (.ofBytes bytes) = .ok figures) : read (Text.FileText.ofBytes bytes).lines = .ok figures := by
  unfold readFile at h
  split at h
  · cases h
  · cases h
  · next hr _ =>
    cases h
    exact hr

namespace Source

theorem unbroken_of_readTable {t : FileTree} {file : Path} {table : Keyed Binary64} (h : readTable t file = .ok table) :
    ∀ name ∈ table.names, Text.Unbroken name := by
  obtain ⟨bytes, -, hr⟩ := bind_eq_ok_iff.1 h
  exact Meminfo.unbroken_names (Meminfo.read_of_readFile hr)

theorem unbroken_of_ofFigures {figures : Except Fault (Keyed Binary64)} {records : List Record}
    (h : figures.map Record.ofFigures = .ok records)
    (hf : ∀ table, figures = .ok table → ∀ name ∈ table.names, Text.Unbroken name) :
    ∀ r ∈ records, Text.Unbroken r.name := by
  obtain ⟨table, ht, rfl⟩ := map_eq_ok_iff.1 h
  intro r hr
  obtain ⟨e, he, rfl⟩ := List.mem_map.1 hr
  exact hf table ht e.1 (List.mem_map_of_mem he)

theorem unbroken_of_read {m : Machine} {s : Source} {records : List Record} (h : (s.read m).1 = .ok records) :
    ∀ r ∈ records, Text.Unbroken r.name := by
  cases s with
  | table file => exact unbroken_of_ofFigures h fun table ht => unbroken_of_readTable ht
  | native source => exact unbroken_of_ofFigures h fun table ht name hn => (Native.names_fit ht name hn).1
  | nodes root =>
    obtain ⟨ds, -, hr⟩ := Numa.exists_directory h
    exact fun r hrm => (hr r hrm).1

end Source

namespace Collector

/-- Where the label of a record comes from, and what its kind has to do with its name. -/
def Labelled (m : Machine) : Source → List Record → Prop
  | .nodes root, records => ∃ ds, Numa.discover m.files root = .ok ds ∧
      ∀ r ∈ records, ∃ d ∈ ds, Numa.IsGaugeOf m.files d r ∨ Numa.IsCountOf m.files d r
  | _, records => ∀ r ∈ records, r.node = "" ∧ (r.kind = .counter ↔ endsWith r.name counterSuffix)

theorem labelled_of_admits {r : Record} (h : Subject.machine.Admits r) :
    r.node = "" ∧ (r.kind = .counter ↔ endsWith r.name counterSuffix) :=
  ⟨h.1, h.2 ▸ Kind.ofName_eq_counter_iff⟩

/-- **The records that a reading lets through.** Their names are words without parentheses, and
no two of them share name and node. The machine's have no node and are counters just when
the name ends in `_total`. A node's are gauges of a memory line, labelled by its second field,
or counters with names in `_total`, labelled by the digits at the end of the directory. -/
theorem records_fit {m : Machine} {c : Collector} {records : List Record} (h : (c.read m).result = .ok records) :
    (∀ r ∈ records, Text.IsWord r.name ∧ '(' ∉ r.name.toList ∧ ')' ∉ r.name.toList) ∧
      (records.map fun r => (r.name, r.node)).Nodup ∧ Labelled m c.source records := by
  obtain ⟨hs, hv⟩ := read_eq_ok_iff.1 h
  refine ⟨fun r hr => ?_, hv.keys, ?_⟩
  · obtain ⟨hne, hparens⟩ := hv.names r hr
    exact ⟨⟨hne, Source.unbroken_of_read hs r hr⟩, hparens⟩
  · have ha := Source.admits_of_read hs
    cases hc : c.source with
    | table file =>
      rw [hc] at ha
      exact fun r hr => labelled_of_admits (ha r hr)
    | native source =>
      rw [hc] at ha
      exact fun r hr => labelled_of_admits (ha r hr)
    | nodes root =>
      rw [hc] at hs
      obtain ⟨ds, hd, hr⟩ := Numa.exists_directory hs
      exact ⟨ds, hd, fun r hrm => (hr r hrm).2⟩

/-- A machine whose only node tells one figure in each of its tables. -/
def twoFigures : Machine :=
  ⟨Numa.nodeTree [("node0", Numa.nodeEntry "Node 0 Active(anon): 2 kB\n" "numa_hit 1\n")], none⟩

/-- A gauge and a counter of a node, each with its label. -/
theorem records_fit_twoFigures :
    (∀ r ∈ [⟨"Active_anon_bytes", .gauge, .ofNat 2048, "0"⟩, ⟨"numa_hit_total", .counter, .ofNat 1, "0"⟩],
      Text.IsWord (Record.name r)) ∧
    Labelled twoFigures (.nodes ⟨.root, ["sys"]⟩)
      [⟨"Active_anon_bytes", .gauge, .ofNat 2048, "0"⟩, ⟨"numa_hit_total", .counter, .ofNat 1, "0"⟩] := by
  have h : ((ofConfig (.default "linux") .nodes).read twoFigures).result =
      .ok [⟨"Active_anon_bytes", .gauge, .ofNat 2048, "0"⟩, ⟨"numa_hit_total", .counter, .ofNat 1, "0"⟩] := by
    decide +kernel
  obtain ⟨names, -, labelled⟩ := records_fit h
  exact ⟨fun r hr => (names r hr).1, labelled⟩

end Collector

end NodeMemory
