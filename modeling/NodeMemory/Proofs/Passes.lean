import Mathlib.Data.List.Forall2
import NodeMemory.Exporter
import NodeMemory.Proofs.Collectors
/-!
# Passes and sessions

What a pass comes to does not depend on the order of its loop: the outcomes are the
readings of the collectors, each with its own two readings of the clock (`outcomesOf`),
and the families are those that each collector has for itself (`families_eq`). An
exporter that starts from a configuration keeps its collectors in order through any
scrapes (`Served.sound`).
-/

namespace NodeMemory

/-- A collector has no records to give. -/
def Collector.fails (m : Machine) (c : Collector) : Bool := (c.read m).result.toOption.isNone

/-- The time between the two readings of turn `j`, where turn 0 begins at the clock's
next reading. -/
def Clock.lap (clock : Clock) (j : Nat) : Binary64 :=
  (clock.readings (clock.taken + 2 * j + 1)).sub (clock.readings (clock.taken + 2 * j))

namespace Exporter

/-! ## The outcomes of a pass -/

/-- The outcomes of collectors that take their turns one after another. -/
def outcomesOf (m : Machine) (clock : Clock) (cs : List Collector) : List Outcome :=
  cs.mapIdx fun j c => ⟨c.subject, (c.read m).result, clock.lap j⟩

/-- Every outcome can be told. -/
def Tellable (outcomes : List Outcome) : Prop := ∀ o ∈ outcomes, ∃ event, o.event = .ok event

theorem outcomesOf_cons (m : Machine) (clock : Clock) (c : Collector) (cs : List Collector) :
    outcomesOf m clock (c :: cs) = (c.turn m clock).outcome :: outcomesOf m (c.turn m clock).clock cs := by
  simp only [outcomesOf, List.mapIdx_cons]
  congr 1
  refine congrArg (List.mapIdx · cs) ?_
  -- The first turn has taken two readings when the others begin.
  funext j c'
  have : clock.taken + 2 * (j + 1) = (c.turn m clock).clock.taken + 2 * j := by
    show _ = clock.taken + 1 + 1 + 2 * j
    omega
  simp only [Clock.lap, this]
  rfl

theorem length_outcomesOf (m : Machine) (clock : Clock) (cs : List Collector) :
    (outcomesOf m clock cs).length = cs.length := List.length_mapIdx

/-- The outcomes are about the collectors' subjects and readings; the clock matters for
the times alone. -/
theorem filterMap_outcomesOf {β : Type} (f : Subject → Except CollectorFault (List Record) → Option β) (m : Machine)
    (clock : Clock) (cs : List Collector) :
    (outcomesOf m clock cs).filterMap (fun o => f o.subject o.result) =
      cs.filterMap fun c => f c.subject (c.read m).result := by
  induction cs generalizing clock with
  | nil => rfl
  | cons c cs ih =>
    have ho : f (c.turn m clock).outcome.subject (c.turn m clock).outcome.result = f c.subject (c.read m).result := rfl
    rw [outcomesOf_cons, List.filterMap_cons, List.filterMap_cons, ho, ih]

/-- Where every turn's time can be told in milliseconds, every outcome can be told. -/
theorem tellable_of_laps {m : Machine} {clock : Clock} {cs : List Collector}
    (h : ∀ j < cs.length, ∃ ms, Outcome.milliseconds (clock.lap j) = .ok ms) : Tellable (outcomesOf m clock cs) := by
  intro o ho
  obtain ⟨j, hj, rfl⟩ := List.mem_iff_getElem.1 ho
  rw [length_outcomesOf] at hj
  obtain ⟨ms, hms⟩ := h j hj
  simp only [outcomesOf, List.getElem_mapIdx, Outcome.event]
  cases (cs[j].read m).result with
  | ok records => exact ⟨_, by rw [hms]; rfl⟩
  | error fault => exact ⟨_, rfl⟩

/-- A pass whose outcomes can all be told goes through to its end. -/
theorem turns_of_tellable {m : Machine} {clock : Clock} {cs : List Collector}
    (h : Tellable (outcomesOf m clock cs)) :
    (turns m clock cs).outcomes = .ok (outcomesOf m clock cs) ∧
      List.Forall₂ (fun o event => o.event = .ok event) (outcomesOf m clock cs) (turns m clock cs).events ∧
      (turns m clock cs).collectors = cs.map fun c => (c.read m).collector := by
  induction cs generalizing clock with
  | nil => exact ⟨rfl, .nil, rfl⟩
  | cons c cs ih =>
    rw [outcomesOf_cons] at h ⊢
    obtain ⟨⟨event, he⟩, hcs⟩ := List.forall_mem_cons.1 h
    obtain ⟨h1, h2, h3⟩ := ih hcs
    simp only [turns, he, Pass.after, h1, h3]
    exact ⟨rfl, .cons he h2, rfl⟩

/-- A pass that goes through has told all its outcomes. -/
theorem turns_eq_ok {m : Machine} {clock : Clock} {cs : List Collector} {outcomes : List Outcome}
    (h : (turns m clock cs).outcomes = .ok outcomes) :
    outcomes = outcomesOf m clock cs ∧ Tellable (outcomesOf m clock cs) := by
  induction cs generalizing clock outcomes with
  | nil =>
    cases h
    exact ⟨rfl, by simp [Tellable, outcomesOf]⟩
  | cons c cs ih =>
    rw [outcomesOf_cons]
    simp only [turns] at h
    cases he : (c.turn m clock).outcome.event with
    | error fault => simp [he] at h
    | ok event =>
      simp only [he, Pass.after] at h
      obtain ⟨rest, hr, rfl⟩ := map_eq_ok_iff.1 h
      obtain ⟨rfl, ht⟩ := ih hr
      exact ⟨rfl, List.forall_mem_cons.2 ⟨⟨event, he⟩, ht⟩⟩

/-- Whether a pass goes through or not, each collector has read once or not at all. -/
theorem forall₂_turns (m : Machine) (clock : Clock) (cs : List Collector) :
    List.Forall₂ (fun c c' => c' = c ∨ c' = (c.read m).collector) cs (turns m clock cs).collectors := by
  induction cs generalizing clock with
  | nil => exact .nil
  | cons c cs ih =>
    simp only [turns]
    cases (c.turn m clock).outcome.event with
    | error fault => exact .cons (.inr rfl) (List.forall₂_same.2 fun _ _ => .inl rfl)
    | ok event => exact .cons (.inr rfl) (ih _)

/-! ## Who failed -/

theorem succeeded_turn (m : Machine) (clock : Clock) (c : Collector) :
    (c.turn m clock).outcome.succeeded = !c.fails m := by
  show (c.read m).result.toOption.isSome = !(c.read m).result.toOption.isNone
  rw [Option.not_isNone]

theorem failed_outcomesOf (m : Machine) (clock : Clock) (cs : List Collector) :
    failed (outcomesOf m clock cs) = Sorting.sortTexts ((cs.filter (Collector.fails m)).map Collector.name) := by
  have h : ((outcomesOf m clock cs).filter fun o => !o.succeeded).map (fun o => o.subject.name) =
      (cs.filter (Collector.fails m)).map Collector.name := by
    induction cs generalizing clock with
    | nil => rfl
    | cons c cs ih =>
      have hs : (!(c.turn m clock).outcome.succeeded) = c.fails m := by rw [succeeded_turn, Bool.not_not]
      rw [outcomesOf_cons, List.filter_cons, List.filter_cons, hs]
      split
      · rw [List.map_cons, List.map_cons, ih]
        rfl
      · exact ih _
  rw [failed, h]

theorem all_succeeded_outcomesOf (m : Machine) (clock : Clock) (cs : List Collector) :
    (outcomesOf m clock cs).all Outcome.succeeded ↔ cs.filter (Collector.fails m) = [] := by
  induction cs generalizing clock with
  | nil => simp [outcomesOf]
  | cons c cs ih =>
    rw [outcomesOf_cons, List.all_cons, succeeded_turn, List.filter_cons]
    cases c.fails m with
    | true => simp
    | false => simpa using ih _

/-! ## The families of a pass -/

/-- A gauge over the collectors has one sample for each outcome. -/
theorem collectorGauge_eq (e : Exporter) (name documentation : String) (value : Outcome → Binary64)
    (outcomes : List Outcome) :
    e.collectorGauge name documentation value outcomes =
      ⟨Record.qualifiedName [e.scope, "scrape", name], documentation, .gauge, ["collector"], outcomes.map fun o =>
        ⟨Record.qualifiedName [e.scope, "scrape", name], [("collector", o.subject.name)], value o⟩⟩ := by
  -- A sample more changes neither kind nor labels, so all samples get one name.
  have fold (f : Family) (hk : f.kind = .gauge) (hl : f.labels = ["collector"]) :
      outcomes.foldl (fun f o => f.add [o.subject.name] (value o)) f =
        { f with samples := f.samples ++ outcomes.map fun o => ⟨f.name, [("collector", o.subject.name)], value o⟩ } := by
    induction outcomes generalizing f with
    | nil => simp
    | cons o os ih =>
      have hn : f.sampleName = f.name := by rw [Family.sampleName, hk]
      rw [List.foldl_cons, ih (f.add [o.subject.name] (value o)) hk hl]
      simp [Family.add, hn, hl]
  exact fold _ rfl rfl

theorem samples_collectorGauge (e : Exporter) (name documentation : String) (value : Outcome → Binary64)
    (outcomes : List Outcome) :
    (e.collectorGauge name documentation value outcomes).samples = outcomes.map fun o =>
      ⟨Record.qualifiedName [e.scope, "scrape", name], [("collector", o.subject.name)], value o⟩ := by
  rw [collectorGauge_eq]

/-- The families about memory, as each collector has them for itself. -/
def memory (e : Exporter) (m : Machine) : List Family := e.collectors.flatMap fun c => (c.scrape m).1.getD []

/-- The collectors after a pass have the families that each has for itself. -/
theorem memoryFamilies_eq {scope : String} {m : Machine} {clock : Clock} {cs : List Collector}
    (h : ∀ c ∈ cs, c.Sound scope) :
    memoryFamilies (cs.map fun c => (c.read m).collector) (outcomesOf m clock cs) =
      (some (cs.flatMap fun c => (c.scrape m).1.getD []), cs.map fun c => (c.scrape m).2) := by
  induction cs generalizing clock with
  | nil => rfl
  | cons c cs ih =>
    obtain ⟨hc, hcs⟩ := List.forall_mem_cons.1 h
    have hs : (c.read m).collector.families (c.turn m clock).outcome.result = c.scrape m := rfl
    rw [outcomesOf_cons, List.map_cons, memoryFamilies, hs, hc.scrape_eq m]
    simp only [ih hcs, List.flatMap_cons, List.map_cons, hc.scrape_eq m, Option.map_some, Option.getD_some]

/-! ## Sessions -/

/-- The exporters that passes and scrapes of any machines, by any clocks, lead to from the
one that a configuration starts with. What is given up on the way counts too. -/
inductive Served (config : Config) (version : String) : Exporter → Prop
  | fresh {e : Exporter} : ofConfig config version = .ok e → Served config version e
  | pass {e : Exporter} (m : Machine) (clock : Clock) : Served config version e →
      Served config version { e with collectors := (e.pass m clock).collectors }
  | scrape {e : Exporter} (m : Machine) (clock : Clock) : Served config version e →
      Served config version (e.scrape m clock).exporter

/-- The collectors of an exporter are those that the configuration enables, in the order
of a pass, and each has its cache in order. -/
structure Sound (config : Config) (version : String) (e : Exporter) : Prop where
  scope_eq : e.scope = config.scope
  version_eq : e.version = version
  subjects_eq : e.collectors.map Collector.subject = Subject.all.filter config.isEnabled
  collectors : ∀ c ∈ e.collectors, c.Sound config.scope

theorem Sound.nodup_subjects {config : Config} {version : String} {e : Exporter} (h : Sound config version e) :
    (e.collectors.map Collector.subject).Nodup := by
  rw [h.subjects_eq]
  exact List.Nodup.filter _ (by decide)

theorem subjects_eq_ok {config : Config} {subjects : List Subject} (h : config.subjects = .ok subjects) :
    subjects = Subject.all.filter config.isEnabled := by
  unfold Config.subjects at h
  dsimp only at h
  split at h
  · cases h
  · split at h
    · cases h
    · exact (Except.ok.inj h).symm

section Sessions
variable {config : Config} {version : String} {e : Exporter}

/-- The collectors that a configuration starts with. -/
theorem mem_collectors (h : ofConfig config version = .ok e) {c : Collector} :
    c ∈ e.collectors ↔ ∃ s, config.isEnabled s ∧ c = .ofConfig config s := by
  obtain ⟨subjects, hs, rfl⟩ := map_eq_ok_iff.1 h
  have hall (s : Subject) : s ∈ Subject.all := by cases s <;> decide
  simp only [List.mem_map, subjects_eq_ok hs, List.mem_filter, hall, true_and]
  constructor <;> (rintro ⟨s, hs, rfl⟩; exact ⟨s, hs, rfl⟩)

theorem sound_ofConfig (h : ofConfig config version = .ok e) :
    Sound config version e := by
  obtain ⟨subjects, hs, rfl⟩ := map_eq_ok_iff.1 h
  refine ⟨rfl, rfl, ?_, ?_⟩
  · rw [← subjects_eq_ok hs, List.map_map]
    exact List.map_id'' (fun s => Collector.subject_ofConfig config s) subjects
  · intro c hc
    obtain ⟨s, -, rfl⟩ := List.mem_map.1 hc
    exact Collector.sound_ofConfig config s

/-- Other collectors of the same subjects, each with its cache in order. -/
theorem Sound.withCollectors (h : Sound config version e) {cs : List Collector}
    (hcs : List.Forall₂ (fun c c' => c.Sound config.scope → c'.Sound config.scope ∧ c'.subject = c.subject)
      e.collectors cs) :
    Sound config version { e with collectors := cs } := by
  -- The two lists are walked together, so what holds of the old ones is part of it.
  have all {old cs : List Collector} (hold : ∀ c ∈ old, c.Sound config.scope)
      (hcs : List.Forall₂ (fun c c' => c.Sound config.scope → c'.Sound config.scope ∧ c'.subject = c.subject) old cs) :
      (∀ c ∈ cs, c.Sound config.scope) ∧ cs.map Collector.subject = old.map Collector.subject := by
    induction hcs with
    | nil => simp
    | cons hc _ ih =>
      obtain ⟨ho, hold⟩ := List.forall_mem_cons.1 hold
      obtain ⟨h1, h2⟩ := hc ho
      obtain ⟨h3, h4⟩ := ih hold
      exact ⟨List.forall_mem_cons.2 ⟨h1, h3⟩, by rw [List.map_cons, List.map_cons, h2, h4]⟩
  obtain ⟨h1, h2⟩ := all h.collectors hcs
  exact ⟨h.scope_eq, h.version_eq, h2.trans h.subjects_eq, h1⟩

theorem Sound.pass (h : Sound config version e) (m : Machine) (clock : Clock) :
    Sound config version { e with collectors := (e.pass m clock).collectors } := by
  refine h.withCollectors ((forall₂_turns m clock e.collectors).imp ?_)
  rintro c c' (rfl | rfl) hc
  · exact ⟨hc, rfl⟩
  · exact ⟨hc.read m, Collector.subject_read m c⟩

/-- The families of a pass are those of its collectors, and then the two that tell of the
collectors themselves. -/
theorem Sound.families_eq (h : Sound config version e) {m : Machine} {clock : Clock}
    (ht : Tellable (outcomesOf m clock e.collectors)) :
    ({ e with collectors := (e.pass m clock).collectors } : Exporter).families (outcomesOf m clock e.collectors) =
      (.ok (e.memory m ++
          [e.durations (outcomesOf m clock e.collectors), e.successes (outcomesOf m clock e.collectors)]),
        { e with collectors := e.collectors.map fun c => (c.scrape m).2 }) := by
  have hp : (e.pass m clock).collectors = e.collectors.map fun c => (c.read m).collector := (turns_of_tellable ht).2.2
  simp only [families, hp, memoryFamilies_eq h.collectors]
  rfl

/-- The samples about memory are those of the collectors' records. -/
theorem Sound.memory_perm (h : Sound config version e) (m : Machine) :
    ((e.memory m).flatMap Family.samples).Perm
      (e.collectors.flatMap fun c => (c.records m).map (c.subject.sample config.scope)) := by
  have hs := h.collectors
  unfold memory
  generalize e.collectors = cs at hs
  rw [List.flatMap_assoc]
  induction cs with
  | nil => exact .refl _
  | cons c cs ih =>
    obtain ⟨hc, hcs⟩ := List.forall_mem_cons.1 hs
    rw [List.flatMap_cons, List.flatMap_cons]
    exact (hc.scrape_perm m).append (ih hcs)

/-- What a scrape gives that is not given up. -/
theorem Sound.scrape_eq (h : Sound config version e) {m : Machine} {clock : Clock}
    (ht : Tellable (outcomesOf m clock e.collectors)) :
    e.scrape m clock = ⟨.ok (e.memory m ++
          [e.durations (outcomesOf m clock e.collectors), e.successes (outcomesOf m clock e.collectors)]),
        (e.pass m clock).events ++ [completed (outcomesOf m clock e.collectors)], (e.pass m clock).calls,
        { e with collectors := e.collectors.map fun c => (c.scrape m).2 }, (e.pass m clock).clock⟩ := by
  have ho : (e.pass m clock).outcomes = .ok (outcomesOf m clock e.collectors) := (turns_of_tellable ht).1
  simp only [Exporter.scrape, ho, h.families_eq ht]

theorem Sound.scrape (h : Sound config version e) (m : Machine) (clock : Clock) :
    Sound config version (e.scrape m clock).exporter := by
  cases ho : (e.pass m clock).outcomes with
  | error fault =>
    simp only [Exporter.scrape, ho]
    exact h.pass m clock
  | ok outcomes =>
    rw [h.scrape_eq (turns_eq_ok ho).2]
    refine h.withCollectors (List.forall₂_map_right_iff.2 (List.forall₂_same.2 fun c _ hc => ?_))
    exact hc.scrape m

/-- However many passes there were, of whatever machines, the collectors are in order. -/
theorem Served.sound (h : Served config version e) : Sound config version e := by
  induction h with
  | fresh h => exact sound_ofConfig h
  | pass m clock _ ih => exact ih.pass m clock
  | scrape m clock _ ih => exact ih.scrape m clock

end Sessions

/-! ## A session to look at -/

/-- Both collectors are enabled, where there are node directories. -/
def bothEnabled : Config := { Config.default "linux" with collectors := Subject.all.map Subject.name }

/-- What a session of both collectors starts with. -/
def bothFresh : Exporter := ⟨Subject.all.map (.ofConfig bothEnabled), bothEnabled.scope, "0.1.0"⟩

theorem served_bothFresh : Served bothEnabled "0.1.0" bothFresh := .fresh rfl

/-- A machine with one node, and without a memory table. -/
def nodeAlone : Machine :=
  ⟨Numa.nodeTree [("node0", Numa.nodeEntry "Node 0 MemFree: 1 kB\n" "numa_hit 1\n")], none⟩

/-- A clock whose readings are a second apart. -/
def seconds : Clock := ⟨Binary64.ofNat, 0⟩

theorem milliseconds_seconds : ∀ j < 2, Outcome.milliseconds (seconds.lap j) = .ok 1000 := by decide +kernel

end Exporter

end NodeMemory
