import NodeMemory.Proofs.CacheTransparency
import NodeMemory.Proofs.RecordFlaws
import NodeMemory.Proofs.RecordNames
/-!
# How failures are reported

A reading fails at its source, or because its records do not go together. What went wrong at
the source is reported as the failure of the subject, and is the cause of it (`Wraps`). Flawed
records are reported by their flaw, under another kind of fault and without a cause. So a
collector wraps every failure just on those machines where its source gives no flawed records
(`failures_wrapped_iff`). Native figures are never flawed; a memory table can be, by a label that
is nothing but a colon (`not_wraps_nameless`).
-/

namespace NodeMemory

/-- What the fault was raised from. -/
def CollectorFault.cause? : CollectorFault → Option Fault
  | failed _ cause => some cause
  | invalid _ => none

/-- The fault is a subject's failure, in the words of what caused it. -/
structure Subject.Wraps (s : Subject) (fault : CollectorFault) (cause : Fault) : Prop where
  kind : fault.kindName = "CollectorError"
  message : fault.message =
    (match s with
      | .machine => "couldn't get meminfo: "
      | .nodes => "couldn't get NUMA meminfo: ") ++ cause.message
  cause : fault.cause? = some cause

theorem Subject.wraps_failed (s : Subject) (cause : Fault) : s.Wraps (.failed s cause) cause := by
  refine ⟨rfl, ?_, rfl⟩
  cases s <;> rfl

theorem Subject.not_wraps_invalid {s : Subject} {flaw : Record.Flaw} {cause : Fault} :
    ¬ s.Wraps (.invalid flaw) cause := by
  intro h
  cases h.cause

namespace Source

/-- The names of native figures are fixed, and they are fit for records. -/
theorem valid_of_native {m : Machine} {source : Native.Source} {records : List Record}
    (h : ((native source).read m).1 = .ok records) : Record.Valid records := by
  obtain ⟨figures, hf, rfl⟩ := map_eq_ok_iff.1 h
  refine ⟨fun r hr => ?_, Record.nodup_keys_ofFigures figures⟩
  obtain ⟨e, he, rfl⟩ := List.mem_map.1 hr
  exact (Native.names_fit hf e.1 (List.mem_map_of_mem he)).2

/-- The machine's figures can only be flawed in their names. -/
theorem check_ne_duplicate_of_machine {m : Machine} {s : Source} {records : List Record} (hs : s.subject = .machine)
    (h : (s.read m).1 = .ok records) (name node : String) : Record.check records ≠ .error (.duplicate name node) := by
  have of_map {figures : Except Fault (Keyed Binary64)} (h : figures.map Record.ofFigures = .ok records) :
      Record.check records ≠ .error (.duplicate name node) := by
    obtain ⟨table, -, rfl⟩ := map_eq_ok_iff.1 h
    exact Record.check_ne_duplicate name node (Record.nodup_keys_ofFigures table)
  cases s with
  | table file => exact of_map h
  | native source => exact of_map h
  | nodes root => cases hs

end Source

namespace Collector

/-- The source gives records that do not go together, and this is the first flaw. -/
def GivesFlawed (m : Machine) (c : Collector) (flaw : Record.Flaw) : Prop :=
  ∃ records, (c.source.read m).1 = .ok records ∧ Record.check records = .error flaw

theorem read_eq_error_iff {m : Machine} {c : Collector} {fault : CollectorFault} :
    (c.read m).result = .error fault ↔
      (∃ cause, (c.source.read m).1 = .error cause ∧ fault = .failed c.subject cause) ∨
        ∃ flaw, c.GivesFlawed m flaw ∧ fault = .invalid flaw := by
  unfold read GivesFlawed
  cases hs : (c.source.read m).1 with
  | error cause => simp [hs, eq_comm]
  | ok records =>
    simp only [hs, validate]
    cases hc : Record.check records with
    | error flaw => simp [hc, eq_comm]
    | ok u => simp [hc]

/-- The turn of a reading that failed tells of the fault, whatever the clock. -/
theorem event_of_error {m : Machine} {c : Collector} {fault : CollectorFault} (h : (c.read m).result = .error fault)
    (clock : Clock) : (c.turn m clock).outcome.event = .ok ⟨.collectorFailed,
      [("collector", .string c.name), ("error_type", .string fault.kindName), ("message", .string fault.message)]⟩ := by
  have ho : (c.turn m clock).outcome.result = .error fault := h
  unfold Outcome.event
  rw [ho]
  rfl

/-- **Which failures are wrapped.** A collector wraps all of them if and only if the records that
its source gives go together. One by one: a failed turn tells the kind and the words of its fault.
If the source failed, the fault wraps what went wrong there. If not, the records were flawed, the
fault has the words of the first flaw and no cause, the source was not the native one, and on the
machine's table the flaw was in a name. -/
theorem failures_wrapped_iff (m : Machine) (c : Collector) :
    ((∀ fault, (c.read m).result = .error fault → ∃ cause, c.subject.Wraps fault cause) ↔
      ∀ records, (c.source.read m).1 = .ok records → Record.Valid records) ∧
    ∀ fault, (c.read m).result = .error fault →
      (∀ clock, (c.turn m clock).outcome.event = .ok ⟨.collectorFailed, [("collector", .string c.name),
        ("error_type", .string fault.kindName), ("message", .string fault.message)]⟩) ∧
      ((∃ cause, (c.source.read m).1 = .error cause ∧ c.subject.Wraps fault cause) ∨
        ∃ flaw, c.GivesFlawed m flaw ∧ fault.kindName = "ValueError" ∧ fault.message = flaw.message ∧
          fault.cause? = none ∧ (∀ source, c.source ≠ .native source) ∧
          (c.subject = .machine → ∀ name node, flaw ≠ .duplicate name node)) := by
  refine ⟨⟨fun h records hr => ?_, fun h fault hf => ?_⟩, fun fault hf => ⟨event_of_error hf, ?_⟩⟩
  · -- Flawed records would be told by a fault that wraps nothing.
    by_contra hv
    obtain ⟨flaw, hc⟩ := Record.check_eq_error_of_not_valid hv
    obtain ⟨cause, hw⟩ := h _ (read_eq_error_iff.2 (.inr ⟨flaw, ⟨records, hr, hc⟩, rfl⟩))
    exact Subject.not_wraps_invalid hw
  · rcases read_eq_error_iff.1 hf with ⟨cause, -, rfl⟩ | ⟨flaw, ⟨records, hr, hc⟩, -⟩
    · exact ⟨cause, c.subject.wraps_failed cause⟩
    · rw [Record.check_eq_ok_iff.2 (h records hr)] at hc
      cases hc
  · rcases read_eq_error_iff.1 hf with ⟨cause, hs, rfl⟩ | ⟨flaw, ⟨records, hr, hc⟩, rfl⟩
    · exact .inl ⟨cause, hs, c.subject.wraps_failed cause⟩
    · refine .inr ⟨flaw, ⟨records, hr, hc⟩, rfl, rfl, rfl, ?_, ?_⟩
      · rintro source hn
        rw [hn] at hr
        rw [Record.check_eq_ok_iff.2 (Source.valid_of_native hr)] at hc
        cases hc
      · rintro hsub name node rfl
        exact Source.check_ne_duplicate_of_machine hsub hr name node hc

/-- A memory table whose only label is a colon. -/
def nameless : Machine := tableAlone ": 5\n"

theorem read_nameless : ((ofConfig (.default "linux") .machine).read nameless).result = .error (.invalid .noName) := by
  decide +kernel

/-- Without a memory table the failure is wrapped, and with a nameless figure it is not. -/
theorem failures_wrapped_iff_nameless :
    (∃ fault cause, ((ofConfig (.default "linux") .machine).read ⟨.empty [], none⟩).result = .error fault ∧
      Subject.machine.Wraps fault cause) ∧
    ∀ clock, ((ofConfig (.default "linux") .machine).turn nameless clock).outcome.event = .ok ⟨.collectorFailed,
      [("collector", .string "meminfo"), ("error_type", .string "ValueError"),
        ("message", .string "record name is empty")]⟩ := by
  have hmissing : ((ofConfig (.default "linux") .machine).read ⟨.empty [], none⟩).result =
      .error (.failed .machine (.file .missing "/proc/meminfo")) := by decide +kernel
  constructor
  · rcases ((failures_wrapped_iff _ _).2 _ hmissing).2 with ⟨cause, -, hw⟩ | ⟨flaw, -, hk, -⟩
    · exact ⟨_, cause, hmissing, hw⟩
    · exact absurd hk (by decide)
  · exact ((failures_wrapped_iff _ _).2 _ read_nameless).1

/-- Not every failure is wrapped. -/
theorem not_wraps_nameless :
    ¬ ∀ m c fault, (Collector.read m c).result = .error fault → ∃ cause, c.subject.Wraps fault cause := by
  intro h
  obtain ⟨cause, hw⟩ := h _ _ _ read_nameless
  exact Subject.not_wraps_invalid hw

end Collector

end NodeMemory
