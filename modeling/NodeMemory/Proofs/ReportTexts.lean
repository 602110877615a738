import NodeMemory.Proofs.CacheTransparency
import NodeMemory.Proofs.Channels
import NodeMemory.Proofs.ReportContents
/-!
# When a report is JSON

A pass that is asked for a report and comes to its end gives one document and the end of a line
to the standard output or to a file. The document is JSON if and only if every record in it has
a finite value (`report_is_json_iff`): a name or a node never spoils it, a value that is not
finite always does.
-/

namespace NodeMemory

open JsonText

/-! ## The numbers of a report -/

/-- What is known of the pass beside its records is no number. -/
theorem Exporter.mem_numbers_report (e : Exporter) (platform : String) {m : Machine} {clock : Clock}
    {cs : List Collector} (h : (cs.map Collector.subject).Nodup) {y : Binary64} :
    y ∈ Json.numbers (e.report platform (outcomesOf m clock cs)) ↔ ∃ c ∈ cs, ∃ r ∈ c.records m, r.value = y := by
  have htexts (texts : List String) : y ∉ Json.numbersOfItems (texts.map .string) := by
    simp [Json.mem_numbersOfItems, Json.numbers]
  have hrecords : y ∈ Json.numbers (e.report platform (outcomesOf m clock cs)) ↔
      ∃ entry ∈ (readSubsystems (outcomesOf m clock cs)).entries, ∃ r ∈ entry.2, r.value = y := by
    simp [report, Report.mem_numbers_document, Json.numbers, Json.mem_numbersOfMembers, htexts]
  rw [hrecords, entries_readSubsystems h]
  constructor
  · rintro ⟨entry, he, r, hr, hy⟩
    obtain ⟨c, hc, he⟩ := List.mem_filterMap.1 he
    obtain ⟨records, ho, rfl⟩ := Option.map_eq_some_iff.1 he
    exact ⟨c, hc, r, by rwa [Collector.records, ho], hy⟩
  · rintro ⟨c, hc, r, hr, hy⟩
    unfold Collector.records at hr
    cases ho : (c.read m).result.toOption with
    | none => simp [ho] at hr
    | some records =>
      rw [ho] at hr
      exact ⟨_, List.mem_filterMap.2 ⟨c, hc, by rw [ho]; rfl⟩, r, hr, hy⟩

/-! ## Whole runs -/

namespace Program

theorem isEnabled_config {platform : String} {selection : Selection} {subject : Subject} :
    (config platform selection).isEnabled subject ↔ subject ∈ subjects selection := by
  unfold Config.isEnabled
  rw [List.contains_iff_mem]
  exact List.mem_map_of_injective Subject.name_injective

/-- A run of one pass that comes to its end makes the pass of a new exporter, whose times can be told. -/
theorem exists_oneshot {s : Surroundings} {service : Service} {words : List String} {selection : Selection}
    {format : Format} {output : String} {code : Nat}
    (hw : Request.ofWords s.environment words = .ok (.oneshot selection format output))
    (he : (transcript s service words).ending = .exit code) :
    ∃ e, Exporter.ofConfig (config s.platform.name selection) version = .ok e ∧
      Exporter.Tellable (Exporter.outcomesOf s.machine s.clock e.collectors) ∧
      transcript s service words = oneshot s e format output := by
  have ht : transcript s service words =
      withExporter s (config s.platform.name selection) fun e => oneshot s e format output := by
    unfold transcript
    rw [hw]
    rfl
  rw [ht] at he ⊢
  unfold withExporter at he ⊢
  cases hc : Exporter.ofConfig (config s.platform.name selection) version with
  | error fault => simp [hc, Transcript.ended] at he
  | ok e =>
    simp only [hc] at he ⊢
    refine ⟨e, rfl, ?_, rfl⟩
    cases ho : (e.pass s.machine s.clock).outcomes with
    | error fault => simp [oneshot, ho, Except.bind] at he
    | ok outcomes => exact (Exporter.turns_eq_ok ho).2

/-- A run that is asked for a report and comes to its end gives out one document and the end of a
line. The document is JSON if and only if no enabled collector has a value that is not finite. -/
theorem report_is_json_iff {s : Surroundings} {service : Service} {words : List String} {selection : Selection}
    {output : String} {code : Nat} (hw : Request.ofWords s.environment words = .ok (.oneshot selection .json output))
    (he : (transcript s service words).ending = .exit code) :
    ∃ document : String, Gives output (document ++ "\n") (transcript s service words) ∧
      (IsDocument document.toList ↔ ∀ subject ∈ subjects selection,
        ∀ r ∈ (Collector.ofConfig (config s.platform.name selection) subject).records s.machine, r.value.IsFinite) := by
  obtain ⟨e, hc, htell, ht⟩ := exists_oneshot hw he
  have hsound := Exporter.sound_ofConfig hc
  obtain ⟨text, hp, hd⟩ := hsound.oneshot_eq htell .json
  simp only [payload, Except.ok.injEq] at hp
  subst hp
  rw [ht, hd output] at he ⊢
  refine ⟨_, gives_deliver he, ?_⟩
  rw [Json.render, String.toList_ofList, Json.isDocument_write_iff]
  simp only [Exporter.mem_numbers_report _ _ hsound.nodup_subjects, Exporter.mem_collectors hc, isEnabled_config]
  constructor
  · intro h subject hs r hr
    exact h _ ⟨_, ⟨subject, hs, rfl⟩, r, hr, rfl⟩
  · rintro h _ ⟨_, ⟨subject, hs, rfl⟩, r, hr, rfl⟩
    exact h subject hs r hr

/-- A table with one figure, and a host that says nothing of itself. -/
def figureAlone (text : String) : Surroundings := Exporter.quietly (Collector.tableAlone text) Exporter.seconds

def askedForReport : List String := ["oneshot", "--format", "json"]

def interrupted : Service := ⟨[], .interrupted⟩

theorem report_is_json_iff_total :
    ∃ document : String, Gives "-" (document ++ "\n")
        (transcript (figureAlone "MemTotal: 1 kB\n") interrupted askedForReport) ∧ IsDocument document.toList := by
  have hw : Request.ofWords [] askedForReport = .ok (.oneshot ⟨"/proc", "/sys", true, false⟩ .json "-") := by
    decide +kernel
  have he : (transcript (figureAlone "MemTotal: 1 kB\n") interrupted askedForReport).ending = .exit 0 := by
    decide +kernel
  obtain ⟨document, hg, hd⟩ := report_is_json_iff hw he
  exact ⟨document, hg, hd.2 (by decide +kernel)⟩

def spoiltReport : String :=
  "\x7b\"meta\":\x7b\"exporter_version\":\"0.1.0\",\"failed\":[],\"platform\":\"linux\"\x7d,\"records\":" ++
    "\x7b\"memory\":[\x7b\"kind\":\"gauge\",\"name\":\"MemTotal\",\"node\":\"\",\"value\":NaN\x7d]\x7d\x7d"

/-- A table whose one figure is no number spoils the report. -/
theorem not_json_nanTotal :
    Request.ofWords [] askedForReport = .ok (.oneshot ⟨"/proc", "/sys", true, false⟩ .json "-") ∧
      (transcript (figureAlone "MemTotal: nan\n") interrupted askedForReport).ending = .exit 0 ∧
      ¬ ∃ document : String, Gives "-" (document ++ "\n")
        (transcript (figureAlone "MemTotal: nan\n") interrupted askedForReport) ∧ IsDocument document.toList := by
  refine ⟨by decide +kernel, by decide +kernel, ?_⟩
  rintro ⟨document, hg, hd⟩
  have ho : (transcript (figureAlone "MemTotal: nan\n") interrupted askedForReport).output = spoiltReport ++ "\n" := by
    decide +kernel
  have hdocument : document = spoiltReport := (String.append_left_inj "\n").1 (hg.symm.trans ho)
  subst hdocument
  exact (hd.outside.fits 'N' (by decide +kernel)).1 rfl

end Program

end NodeMemory
