import Mathlib.Data.List.Forall2
import NodeMemory.Numa
/-!
# A pass over the node directories is all or nothing

A pass goes through the stages of each directory: open the memory table, read it,
open the counts, find the node id, read the counts. Each stage is looked at on its
own here, whatever came of the others (`Stage.Fails`). `read_all_or_nothing`: a pass
gives the records of all directories in order if no stage fails, and otherwise the
fault of the first stage that does.
-/

namespace NodeMemory

/-! ## One table -/

namespace NodeTable

/-- The bytes are text, every line of it fits, and these are its records. -/
def Parses (record : String → Except Fault Record) (bytes : List UInt8) (records : List Record) : Prop :=
  (Text.FileText.ofBytes bytes).fault = none ∧
    readWith record (Text.FileText.ofBytes bytes).lines = .ok records

/-- Why the bytes of a table have no records: a line that does not fit, or else
bytes that are no text. -/
inductive Rejects (record : String → Except Fault Record) (bytes : List UInt8) : Fault → Prop
  | line {f : Fault} : readWith record (Text.FileText.ofBytes bytes).lines = .error f → Rejects record bytes f
  | noText {records : List Record} {u : Text.Utf8.Fault} :
      readWith record (Text.FileText.ofBytes bytes).lines = .ok records →
      (Text.FileText.ofBytes bytes).fault = some u → Rejects record bytes (.undecodable u)

theorem readFile_eq_ok_iff {record : String → Except Fault Record} {bytes : List UInt8} {records : List Record} :
    readFile record (.ofBytes bytes) = .ok records ↔ Parses record bytes records := by
  unfold readFile Parses
  cases readWith record (Text.FileText.ofBytes bytes).lines <;>
    cases (Text.FileText.ofBytes bytes).fault <;> simp

theorem readFile_eq_error_iff {record : String → Except Fault Record} {bytes : List UInt8} {f : Fault} :
    readFile record (.ofBytes bytes) = .error f ↔ Rejects record bytes f := by
  constructor
  · intro h
    unfold readFile at h
    cases hr : readWith record (Text.FileText.ofBytes bytes).lines with
    | error g =>
      rw [hr] at h
      cases h
      exact .line hr
    | ok records =>
      cases hu : (Text.FileText.ofBytes bytes).fault with
      | none => simp [hr, hu] at h
      | some u =>
        simp only [hr, hu, Except.error.injEq] at h
        exact h ▸ .noText hr hu
  · rintro (h | ⟨h, hu⟩)
    · simp [readFile, h]
    · simp [readFile, h, hu]

end NodeTable

namespace Numa

/-! ## The stages of a directory -/

/-- What is done for one node directory. -/
inductive Stage where
  | openMemory
  | readMemory
  | openCounts
  | findId
  | readCounts
  deriving DecidableEq, Repr

/-- The stages in the order of a pass. -/
def Stage.all : List Stage := [openMemory, readMemory, openCounts, findId, readCounts]

/-- A stage fails at a directory. Of the other stages only those matter that it takes
something from: a table has to be open before it is read, and the counts have the id. -/
inductive Stage.Fails (t : FileTree) (d : Path) : Stage → Fault → Prop
  | openMemory {f : Fault} : t.read (d.child "meminfo") = .error f → Fails t d .openMemory f
  | readMemory {memory : List UInt8} {f : Fault} : t.read (d.child "meminfo") = .ok memory →
      NodeTable.Rejects NodeTable.gauge memory f → Fails t d .readMemory f
  | openCounts {f : Fault} : t.read (d.child "numastat") = .error f → Fails t d .openCounts f
  | findId {f : Fault} : nodeId d.text = .error f → Fails t d .findId f
  | readCounts {counts : List UInt8} {id : String} {f : Fault} : t.read (d.child "numastat") = .ok counts →
      nodeId d.text = .ok id → NodeTable.Rejects (NodeTable.counter id) counts f → Fails t d .readCounts f

/-- Every stage goes through: the two tables are opened and parsed, with the node id
for the counts. -/
def Gives (t : FileTree) (d : Path) (gauges counters : List Record) : Prop :=
  ∃ memory counts id, t.read (d.child "meminfo") = .ok memory ∧ NodeTable.Parses NodeTable.gauge memory gauges ∧
    t.read (d.child "numastat") = .ok counts ∧ nodeId d.text = .ok id ∧
    NodeTable.Parses (NodeTable.counter id) counts counters

/-- All stages of a pass, directory after directory. -/
def schedule (ds : List Path) : List (Path × Stage) := ds.flatMap fun d => Stage.all.map (d, ·)

/-- None of the steps fails. -/
def Passes (t : FileTree) (steps : List (Path × Stage)) : Prop :=
  ∀ step ∈ steps, ∀ f, ¬ step.2.Fails t step.1 f

/-- The first of the steps to fail does so with this fault. -/
def StopsWith (t : FileTree) (steps : List (Path × Stage)) (f : Fault) : Prop :=
  ∃ before step after, steps = before ++ step :: after ∧ Passes t before ∧ step.2.Fails t step.1 f

/-! ## Each stage on its own -/

section Stages
variable {t : FileTree} {d : Path} {f : Fault}

theorem openMemory_fails_iff : Stage.openMemory.Fails t d f ↔ t.read (d.child "meminfo") = .error f :=
  ⟨fun | .openMemory h => h, .openMemory⟩

theorem readMemory_fails_iff : Stage.readMemory.Fails t d f ↔ ∃ memory, t.read (d.child "meminfo") = .ok memory ∧
    NodeTable.readFile NodeTable.gauge (.ofBytes memory) = .error f :=
  ⟨fun | .readMemory h hr => ⟨_, h, NodeTable.readFile_eq_error_iff.2 hr⟩,
    fun ⟨_, h, hr⟩ => .readMemory h (NodeTable.readFile_eq_error_iff.1 hr)⟩

theorem openCounts_fails_iff : Stage.openCounts.Fails t d f ↔ t.read (d.child "numastat") = .error f :=
  ⟨fun | .openCounts h => h, .openCounts⟩

theorem findId_fails_iff : Stage.findId.Fails t d f ↔ nodeId d.text = .error f :=
  ⟨fun | .findId h => h, .findId⟩

theorem readCounts_fails_iff : Stage.readCounts.Fails t d f ↔ ∃ counts id, t.read (d.child "numastat") = .ok counts ∧
    nodeId d.text = .ok id ∧ NodeTable.readFile (NodeTable.counter id) (.ofBytes counts) = .error f :=
  ⟨fun | .readCounts h hi hr => ⟨_, _, h, hi, NodeTable.readFile_eq_error_iff.2 hr⟩,
    fun ⟨_, _, h, hi, hr⟩ => .readCounts h hi (NodeTable.readFile_eq_error_iff.1 hr)⟩

end Stages

/-! ## The first step that fails -/

section Steps
variable {t : FileTree} {x : Path × Stage} {xs ys : List (Path × Stage)} {f : Fault}

theorem not_stopsWith_nil : ¬ StopsWith t [] f := by
  rintro ⟨before, step, after, h, -⟩
  cases before <;> cases h

theorem passes_cons : Passes t (x :: xs) ↔ (∀ g, ¬ x.2.Fails t x.1 g) ∧ Passes t xs :=
  List.forall_mem_cons

theorem stopsWith_cons :
    StopsWith t (x :: xs) f ↔ x.2.Fails t x.1 f ∨ (∀ g, ¬ x.2.Fails t x.1 g) ∧ StopsWith t xs f := by
  constructor
  · rintro ⟨before, step, after, h, hb, hf⟩
    rcases before with _ | ⟨y, before⟩
    · cases h
      exact .inl hf
    · cases h
      exact .inr ⟨(passes_cons.1 hb).1, before, step, after, rfl, (passes_cons.1 hb).2, hf⟩
  · rintro (hf | ⟨hx, before, step, after, rfl, hb, hf⟩)
    · exact ⟨[], x, xs, rfl, by simp [Passes], hf⟩
    · exact ⟨x :: before, step, after, rfl, passes_cons.2 ⟨hx, hb⟩, hf⟩

theorem stopsWith_append : StopsWith t (xs ++ ys) f ↔ StopsWith t xs f ∨ Passes t xs ∧ StopsWith t ys f := by
  induction xs with
  | nil => simp [not_stopsWith_nil, Passes]
  | cons x xs ih =>
    rw [List.cons_append, stopsWith_cons, stopsWith_cons, passes_cons, ih]
    tauto

/-- Either every step goes through or one is the first to fail. -/
theorem passes_iff : Passes t xs ↔ ∀ f, ¬ StopsWith t xs f := by
  induction xs with
  | nil => simp [Passes, not_stopsWith_nil]
  | cons x xs ih =>
    rw [passes_cons, ih]
    constructor
    · rintro ⟨hx, hxs⟩ f h
      rcases stopsWith_cons.1 h with hf | ⟨-, hf⟩
      · exact hx f hf
      · exact hxs f hf
    · intro h
      have hx : ∀ g, ¬ x.2.Fails t x.1 g := fun g hg => h g (stopsWith_cons.2 (.inl hg))
      exact ⟨hx, fun f hf => h f (stopsWith_cons.2 (.inr ⟨hx, hf⟩))⟩

end Steps

/-! ## One directory -/

theorem readNode_eq_ok_iff {t : FileTree} {d : Path} {records : List Record} :
    readNode t d = .ok records ↔ ∃ gauges counters, Gives t d gauges counters ∧ records = gauges ++ counters := by
  simp only [readNode, Gives, ← NodeTable.readFile_eq_ok_iff, bind_eq_ok_iff, pure, Except.pure, Except.ok.injEq]
  constructor
  · rintro ⟨memory, hm, gauges, hg, counts, hc, id, hi, counters, hn, rfl⟩
    exact ⟨gauges, counters, ⟨memory, counts, id, hm, hg, hc, hi, hn⟩, rfl⟩
  · rintro ⟨gauges, counters, ⟨memory, counts, id, hm, hg, hc, hi, hn⟩, rfl⟩
    exact ⟨memory, hm, gauges, hg, counts, hc, id, hi, counters, hn, rfl⟩

theorem readNode_eq_error_iff {t : FileTree} {d : Path} {f : Fault} :
    readNode t d = .error f ↔ StopsWith t (Stage.all.map (d, ·)) f := by
  simp only [Stage.all, List.map_cons, List.map_nil, stopsWith_cons, not_stopsWith_nil, and_false, or_false,
    openMemory_fails_iff, readMemory_fails_iff, openCounts_fails_iff, findId_fails_iff, readCounts_fails_iff]
  unfold readNode
  cases hm : t.read (d.child "meminfo") with
  | error g => simp [bind, Except.bind]
  | ok memory =>
    cases hg : NodeTable.readFile NodeTable.gauge (.ofBytes memory) with
    | error g => simp [bind, Except.bind, hg]
    | ok gauges =>
      cases hc : t.read (d.child "numastat") with
      | error g => simp [bind, Except.bind, hg]
      | ok counts =>
        cases hi : nodeId d.text with
        | error g => simp [bind, Except.bind, hg]
        | ok id =>
          cases hn : NodeTable.readFile (NodeTable.counter id) (.ofBytes counts) with
          | error g => simp [bind, Except.bind, hg, hn]
          | ok counters => simp [bind, Except.bind, pure, Except.pure, hg, hn]

/-- A directory gives its records if and only if none of its stages fails. -/
theorem passes_iff_gives {t : FileTree} {d : Path} :
    Passes t (Stage.all.map (d, ·)) ↔ ∃ gauges counters, Gives t d gauges counters := by
  rw [passes_iff]
  simp only [← readNode_eq_error_iff]
  constructor
  · intro h
    cases hr : readNode t d with
    | error f => exact absurd hr (h f)
    | ok records =>
      obtain ⟨gauges, counters, hg, -⟩ := readNode_eq_ok_iff.1 hr
      exact ⟨gauges, counters, hg⟩
  · rintro ⟨gauges, counters, hg⟩ f hf
    rw [readNode_eq_ok_iff.2 ⟨gauges, counters, hg, rfl⟩] at hf
    cases hf

/-! ## All directories -/

theorem readNodes_eq_ok_iff {t : FileTree} {ds : List Path} {records : List Record} :
    readNodes t ds = .ok records ↔ ∃ parts : List (List Record × List Record),
      List.Forall₂ (fun d p => Gives t d p.1 p.2) ds parts ∧ records = parts.flatMap fun p => p.1 ++ p.2 := by
  induction ds generalizing records with
  | nil =>
    simp only [readNodes, Except.ok.injEq, List.forall₂_nil_left_iff, exists_eq_left, List.flatMap_nil]
    exact eq_comm
  | cons d ds ih =>
    simp only [readNodes, bind_eq_ok_iff, readNode_eq_ok_iff, ih, List.forall₂_cons_left_iff, pure, Except.pure,
      Except.ok.injEq]
    constructor
    · rintro ⟨_, ⟨gauges, counters, hg, rfl⟩, _, ⟨parts, hp, rfl⟩, rfl⟩
      exact ⟨_, ⟨(gauges, counters), parts, hg, hp, rfl⟩, rfl⟩
    · rintro ⟨_, ⟨⟨gauges, counters⟩, parts, hg, hp, rfl⟩, rfl⟩
      exact ⟨_, ⟨gauges, counters, hg, rfl⟩, _, ⟨parts, hp, rfl⟩, rfl⟩

theorem readNodes_eq_error_iff {t : FileTree} {ds : List Path} {f : Fault} :
    readNodes t ds = .error f ↔ StopsWith t (schedule ds) f := by
  induction ds with
  | nil => simp [readNodes, schedule, not_stopsWith_nil]
  | cons d ds ih =>
    have hs : schedule (d :: ds) = Stage.all.map (d, ·) ++ schedule ds := rfl
    rw [hs, stopsWith_append, ← readNode_eq_error_iff, passes_iff_gives, ← ih]
    cases hd : readNode t d with
    | error g =>
      have hn : ¬ ∃ gauges counters, Gives t d gauges counters := by
        rintro ⟨gauges, counters, hg⟩
        rw [readNode_eq_ok_iff.2 ⟨gauges, counters, hg, rfl⟩] at hd
        cases hd
      simp [readNodes, bind, Except.bind, hd, hn]
    | ok first =>
      obtain ⟨gauges, counters, hg, -⟩ := readNode_eq_ok_iff.1 hd
      have hy : ∃ gauges counters, Gives t d gauges counters := ⟨gauges, counters, hg⟩
      cases hs : readNodes t ds <;> simp [readNodes, bind, Except.bind, pure, Except.pure, hd, hs, hy]

/-! ## Trees to look at -/

/-- The bytes of a text in ASCII. -/
def asciiBytes (text : String) : List UInt8 := text.toList.map fun c => UInt8.ofNat c.toNat

/-- A node directory with these two tables. -/
def nodeEntry (memory counts : String) : Entry :=
  .directory [("meminfo", .file (asciiBytes memory)), ("numastat", .file (asciiBytes counts))]

/-- A tree that has these entries where node directories are looked for, below `/sys`. -/
def nodeTree (entries : List (String × Entry)) : FileTree :=
  ⟨.directory [("sys", .directory [("devices", .directory [("system", .directory [("node",
    .directory entries)])])])], []⟩

/-- The path of an entry of such a tree. -/
def nodePath (name : String) : Path := ⟨.root, ["sys", "devices", "system", "node", name]⟩

/-- The second of three directories has a value that is no number, and the third has
no tables. -/
def faultyNodes : FileTree :=
  nodeTree [("node0", nodeEntry "Node 0 MemFree: 1 kB\n" "numa_hit 1\n"),
    ("node1", nodeEntry "Node 1 MemFree: x kB\n" "numa_hit one\n"), ("node2", .empty)]

/-! ## The pass -/

/-- A pass gives all records of all directories, gauges before counters, in the order
of the directories; or none, and then the fault of the first stage that fails. What
fails is settled there: in any other tree whose pass begins with the same stages, up
to the one that fails, the fault is the same, whatever directories and stages come
later. -/
theorem read_all_or_nothing {t : FileTree} {root : Path} {ds : List Path} (h : discover t root = .ok ds) :
    (∀ records, read t root = .ok records ↔ ∃ parts : List (List Record × List Record),
      List.Forall₂ (fun d p => Gives t d p.1 p.2) ds parts ∧ records = parts.flatMap fun p => p.1 ++ p.2) ∧
    (∀ f, read t root = .error f ↔ StopsWith t (schedule ds) f) ∧
    ∀ t' root' ds' before step after after' f, discover t' root' = .ok ds' →
      schedule ds = before ++ step :: after → schedule ds' = before ++ step :: after' →
      (∀ x ∈ before ++ [step], ∀ g, x.2.Fails t' x.1 g ↔ x.2.Fails t x.1 g) →
      Passes t before → step.2.Fails t step.1 f → read t root = .error f ∧ read t' root' = .error f := by
  have hread {t : FileTree} {root : Path} {ds : List Path} (h : discover t root = .ok ds) :
      read t root = readNodes t ds := by simp [read, bind, Except.bind, h]
  refine ⟨fun records => ?_, fun f => ?_, ?_⟩
  · rw [hread h]
    exact readNodes_eq_ok_iff
  · rw [hread h]
    exact readNodes_eq_error_iff
  · intro t' root' ds' before step after after' f h' hs hs' same hb hf
    rw [hread h, hread h', readNodes_eq_error_iff, readNodes_eq_error_iff]
    refine ⟨⟨before, step, after, hs, hb, hf⟩, before, step, after', hs', fun x hx g hg => ?_, ?_⟩
    · exact hb x hx g ((same x (by simp [hx]) g).1 hg)
    · exact (same step (by simp) f).2 hf

/-- A pass over `faultyNodes` stops at the memory table of the second directory. -/
theorem read_stops_at_second :
    discover faultyNodes ⟨.root, ["sys"]⟩ = .ok [nodePath "node0", nodePath "node1", nodePath "node2"] ∧
      StopsWith faultyNodes (schedule [nodePath "node0", nodePath "node1", nodePath "node2"])
        (.badValue "meminfo" "x") := by
  have h : discover faultyNodes ⟨.root, ["sys"]⟩ = .ok [nodePath "node0", nodePath "node1", nodePath "node2"] := rfl
  exact ⟨h, ((read_all_or_nothing h).2.1 _).1 rfl⟩

end Numa

end NodeMemory
