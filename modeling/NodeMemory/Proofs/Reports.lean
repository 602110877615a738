import NodeMemory.Proofs.Passes
/-!
# What a report carries

A report names the collectors that failed and has the records of the others, each
subsystem's in order (`report_records`). These are the records that the families of the
same pass carry as samples, one for one, whatever the collectors met in earlier passes
(`outputs_agree`).
-/

namespace NodeMemory

/-! ## Objects -/

namespace Json

/-- The value under a name in an object. -/
def member? (name : String) : Json → Option Json
  | object members => Entries.find? name members
  | _ => none

/-- The names in an object. -/
def memberNames : Json → List String
  | object members => members.map Prod.fst
  | _ => []

end Json

namespace Exporter

/-! ## The members of a report -/

/-- The records that a report has of a pass, by their subjects and in its order. -/
def written (outcomes : List Outcome) : List (Subject × List Record) :=
  outcomes.filterMap fun o => o.result.toOption.map fun records => (o.subject, Report.arrange records)

theorem written_outcomesOf (m : Machine) (clock : Clock) (cs : List Collector) :
    written (outcomesOf m clock cs) =
      cs.filterMap fun c => (c.read m).result.toOption.map fun records => (c.subject, Report.arrange records) :=
  filterMap_outcomesOf (fun s result => result.toOption.map fun records => (s, Report.arrange records)) m clock cs

theorem entries_readSubsystems {m : Machine} {clock : Clock} {cs : List Collector}
    (h : (cs.map Collector.subject).Nodup) :
    (readSubsystems (outcomesOf m clock cs)).entries =
      cs.filterMap fun c => (c.read m).result.toOption.map fun records => (c.subject.subsystem, records) := by
  rw [readSubsystems, filterMap_outcomesOf fun s result => result.toOption.map fun records => (s.subsystem, records)]
  refine Keyed.entries_ofList ?_
  have hsub : ((cs.filterMap fun c => (c.read m).result.toOption.map fun records =>
      (c.subject.subsystem, records)).map Prod.fst).Sublist ((cs.map Collector.subject).map Subject.subsystem) := by
    clear h
    induction cs with
    | nil => exact .slnil
    | cons c cs ih =>
      rw [List.filterMap_cons]
      cases (c.read m).result.toOption with
      | none => exact ih.cons _
      | some records => exact ih.cons_cons _
  exact hsub.nodup (h.map Subject.subsystem_injective)

theorem report_failed (e : Exporter) (platform : String) (m : Machine) (clock : Clock) (cs : List Collector) :
    ((e.report platform (outcomesOf m clock cs)).member? "meta").bind (Json.member? "failed") =
      some (.array ((Sorting.sortTexts ((cs.filter (Collector.fails m)).map Collector.name)).map .string)) := by
  rw [← failed_outcomesOf m clock cs]
  rfl

theorem report_records (e : Exporter) (platform : String) (m : Machine) (clock : Clock) {cs : List Collector}
    (h : (cs.map Collector.subject).Nodup) :
    (e.report platform (outcomesOf m clock cs)).member? "records" =
      some (.object ((written (outcomesOf m clock cs)).map fun w =>
        (w.1.subsystem, .array (w.2.map Report.ofRecord)))) := by
  have hm : (e.report platform (outcomesOf m clock cs)).member? "records" =
      some (.object ((readSubsystems (outcomesOf m clock cs)).entries.map fun e =>
        (e.1, .array ((Report.arrange e.2).map Report.ofRecord)))) := by
    unfold report Report.document
    simp [Json.member?, Entries.find?]
  rw [hm, entries_readSubsystems h, written_outcomesOf, List.map_filterMap, List.map_filterMap]
  simp only [Option.map_map]
  rfl

theorem report_subsystems (e : Exporter) (platform : String) (m : Machine) (clock : Clock) {cs : List Collector}
    (h : (cs.map Collector.subject).Nodup) :
    ((e.report platform (outcomesOf m clock cs)).member? "records").map Json.memberNames =
      some ((cs.filter fun c => !c.fails m).map fun c => c.subject.subsystem) := by
  rw [report_records e platform m clock h, written_outcomesOf, Option.map_some, Json.memberNames, List.map_map]
  congr 1
  clear h
  induction cs with
  | nil => rfl
  | cons c cs ih =>
    rw [List.filterMap_cons, List.filter_cons, Collector.fails]
    cases (c.read m).result.toOption with
    | none => simpa using ih
    | some records => simpa using ih

/-! ## Report and families -/

/-- The records of a report are those of the collectors that do not fail. -/
theorem samples_written (scope : String) (m : Machine) (clock : Clock) (cs : List Collector) :
    ((written (outcomesOf m clock cs)).flatMap fun w => w.2.map (w.1.sample scope)).Perm
      (cs.flatMap fun c => (c.records m).map (c.subject.sample scope)) := by
  rw [written_outcomesOf]
  induction cs with
  | nil => exact .refl _
  | cons c cs ih =>
    rw [List.filterMap_cons, List.flatMap_cons, Collector.records]
    cases (c.read m).result.toOption with
    | none => exact ih
    | some records => exact ((Sorting.sortBy_perm _ records).map _).append ih

/-- No two records of a pass have the same sample, be they of one subject or two. -/
theorem nodup_samples {m : Machine} {cs : List Collector} (scope : String) (h : (cs.map Collector.subject).Nodup) :
    (cs.flatMap fun c => (c.records m).map (c.subject.sample scope)).Nodup := by
  induction cs with
  | nil => exact .nil
  | cons c cs ih =>
    obtain ⟨hc, hcs⟩ := List.nodup_cons.1 h
    rw [List.flatMap_cons, List.nodup_append']
    refine ⟨(Collector.fits_records m c).nodup_samples scope, ih hcs, ?_⟩
    -- A sample in both parts would be of two collectors with one subject.
    intro x hx hy
    obtain ⟨r, -, rfl⟩ := List.mem_map.1 hx
    obtain ⟨d, hd, hy⟩ := List.mem_flatMap.1 hy
    obtain ⟨r', -, he⟩ := List.mem_map.1 hy
    exact hc (Subject.eq_of_sample_eq he ▸ List.mem_map_of_mem hd)

/-- The families of some outcomes and a report of them have the same records. -/
structure OutputsAgree (scope : String) (e : Exporter) (outcomes : List Outcome) (memory : List Family) : Prop where
  /-- The families are these about memory, and the two about the collectors. -/
  families : (e.families outcomes).1 = .ok (memory ++ [e.durations outcomes, e.successes outcomes])
  /-- Whatever the platform is called, the report has the records that are written. -/
  report : ∀ platform, (e.report platform outcomes).member? "records" =
    some (.object ((written outcomes).map fun w => (w.1.subsystem, .array (w.2.map Report.ofRecord))))
  /-- A sample for each record that is written, and no other. -/
  samples : (memory.flatMap Family.samples).Perm ((written outcomes).flatMap fun w => w.2.map (w.1.sample scope))
  /-- No sample is there for two records. -/
  nodup : ((written outcomes).flatMap fun w => w.2.map (w.1.sample scope)).Nodup

/-- After any passes over any machines, the samples about memory that come of a pass
correspond to the records in its report: each has the full name of its record, the
node for its only label where the subject has nodes, and the value. -/
theorem outputs_agree {config : Config} {version : String} {e : Exporter} (he : Served config version e)
    {m : Machine} {clock : Clock} {outcomes : List Outcome} (ho : (e.pass m clock).outcomes = .ok outcomes) :
    ∃ memory, OutputsAgree config.scope { e with collectors := (e.pass m clock).collectors } outcomes memory := by
  have h := he.sound
  obtain ⟨rfl, ht⟩ := turns_eq_ok ho
  have hw := samples_written config.scope m clock e.collectors
  refine ⟨_, ?_, ?_, (h.memory_perm m).trans hw.symm, ?_⟩
  · rw [h.families_eq ht]
    rfl
  · intro platform
    exact report_records _ platform m clock h.nodup_subjects
  · exact hw.nodup_iff.2 (nodup_samples config.scope h.nodup_subjects)

/-- What has met the records of one node. -/
def bothMet : Exporter := (bothFresh.scrape nodeAlone seconds).exporter

/-- The same machine with a memory table. -/
def tableAndNode : Machine :=
  ⟨⟨nodeAlone.files.root.put ["proc", "meminfo"] (.file (Numa.asciiBytes "MemTotal: 2 kB\nMemFree: 1 kB\n")), []⟩, none⟩

/-- A scrape without the memory table, and then a pass with it. -/
theorem outputs_agree_tableAndNode :
    (written (outcomesOf tableAndNode seconds bothMet.collectors)).map (fun w => (w.1, w.2.map Record.name)) =
        [(.machine, ["MemFree_bytes", "MemTotal_bytes"]), (.nodes, ["MemFree_bytes", "numa_hit_total"])] ∧
      ∃ memory, OutputsAgree bothEnabled.scope
        { bothMet with collectors := (bothMet.pass tableAndNode seconds).collectors }
        (outcomesOf tableAndNode seconds bothMet.collectors) memory := by
  have hl : bothMet.collectors.length = 2 := by decide +kernel
  have ht : Tellable (outcomesOf tableAndNode seconds bothMet.collectors) :=
    tellable_of_laps fun j hj => ⟨1000, milliseconds_seconds j (hl ▸ hj)⟩
  have hs : Served bothEnabled "0.1.0" bothMet := served_bothFresh.scrape nodeAlone seconds
  have ho : (bothMet.pass tableAndNode seconds).outcomes = .ok (outcomesOf tableAndNode seconds bothMet.collectors) :=
    (turns_of_tellable ht).1
  exact ⟨by decide +kernel, outputs_agree hs ho⟩

end Exporter

end NodeMemory
