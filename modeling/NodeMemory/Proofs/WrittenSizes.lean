import NodeMemory.Proofs.ReportTexts
/-!
# The size of a written file

The event of a file that was written counts the characters of the text, while the file holds its
bytes. The two numbers are the same if and only if all characters of the text are ASCII
(`written_size_iff`): a name beyond ASCII in a memory table is enough to make the event wrong.
-/

namespace NodeMemory

/-! ## Bytes of texts -/

namespace Text.Utf8

theorem length_loop (bytes : ByteArray) (i : Nat) (read : List UInt8) :
    (ByteArray.toList.loop bytes i read).length = read.length + (bytes.size - i) := by
  induction i, read using ByteArray.toList.loop.induct bytes with
  | case1 i read h ih =>
    rw [ByteArray.toList.loop, if_pos h, ih, List.length_cons]
    omega
  | case2 i read h =>
    rw [ByteArray.toList.loop, if_neg h, List.length_reverse]
    omega

/-- Every character is as many bytes as its code needs. -/
theorem length_encode (text : String) : (encode text).length = (text.toList.map Char.utf8Size).sum := by
  rw [encode, ByteArray.toList, length_loop, List.length_nil, Nat.zero_add, Nat.sub_zero, String.toUTF8_eq_toByteArray,
    ← String.utf8Encode_toList, List.utf8Encode, List.size_toByteArray, List.length_flatMap]
  simp only [String.length_utf8EncodeChar]

theorem utf8Size_eq_one_iff {c : Char} : c.utf8Size = 1 ↔ c.toNat < 0x80 := by
  rw [Char.utf8Size_eq_one_iff, UInt32.le_iff_toNat_le]
  exact Nat.lt_succ_iff.symm

/-- A text has as many bytes as characters if and only if it is ASCII. -/
theorem length_encode_eq_iff (text : String) :
    (encode text).length = text.length ↔ ∀ c ∈ text.toList, c.toNat < 0x80 := by
  rw [length_encode, ← String.length_toList]
  generalize text.toList = cs
  have hle (cs : List Char) : cs.length ≤ (cs.map Char.utf8Size).sum := by
    induction cs with
    | nil => exact Nat.le_refl _
    | cons c cs ih =>
      have := c.utf8Size_pos
      rw [List.map_cons, List.sum_cons, List.length_cons]
      omega
  induction cs with
  | nil => simp
  | cons c cs ih =>
    have hc := c.utf8Size_pos
    have hcs := hle cs
    rw [List.forall_mem_cons, ← utf8Size_eq_one_iff, List.map_cons, List.sum_cons, List.length_cons]
    constructor
    · intro h
      exact ⟨by omega, ih.1 (by omega)⟩
    · rintro ⟨h1, h⟩
      have := ih.2 h
      omega

end Text.Utf8

/-! ## Whole runs -/

namespace Program

/-- A run of one pass that comes to its end delivers a text, after the events of the collectors. -/
theorem exists_deliver {s : Surroundings} {service : Service} {words : List String} {selection : Selection}
    {format : Format} {output : String} {code : Nat}
    (hw : Request.ofWords s.environment words = .ok (.oneshot selection format output))
    (he : (transcript s service words).ending = .exit code) :
    ∃ (e : Exporter) (text : String) (status : Nat),
      List.Forall₂ (Collector.Tells s.machine) e.collectors (e.pass s.machine s.clock).events ∧
      transcript s service words = deliver s (e.pass s.machine s.clock).events output text status := by
  obtain ⟨e, hc, htell, ht⟩ := exists_oneshot hw he
  obtain ⟨text, -, hd⟩ := (Exporter.sound_ofConfig hc).oneshot_eq htell format
  exact ⟨e, text, _, Exporter.forall₂_tells htell, ht.trans (hd output)⟩

theorem kind_of_tells {m : Machine} {c : Collector} {event : Event} (h : c.Tells m event) :
    event.kind ≠ .oneshotWritten := by
  unfold Collector.Tells at h
  split at h
  · obtain ⟨ms, rfl⟩ := h
    exact nofun
  · rw [h]
    exact nofun

theorem kind_of_mem_events {m : Machine} {cs : List Collector} {events : List Event}
    (h : List.Forall₂ (Collector.Tells m) cs events) : ∀ event ∈ events, event.kind ≠ .oneshotWritten := by
  induction h with
  | nil => simp
  | cons hc _ ih => exact List.forall_mem_cons.2 ⟨kind_of_tells hc, ih⟩

/-- A run of one pass that comes to its end with a file as its output tells of that file in one event. The file holds
the bytes of a text, and the event counts the characters of it: that is the size of the file if and only if all
of the text is ASCII. -/
theorem written_size_iff {s : Surroundings} {service : Service} {words : List String} {selection : Selection}
    {format : Format} {output : String} {code : Nat}
    (hw : Request.ofWords s.environment words = .ok (.oneshot selection format output))
    (ho : output ≠ Setting.standardOutput) (he : (transcript s service words).ending = .exit code) :
    ∃ (text : String) (bytes : List UInt8) (count : Nat),
      (transcript s service words).files.read (.ofText output) = .ok bytes ∧ bytes = Text.Utf8.encode text ∧
      (transcript s service words).events.filter (fun event => event.kind = .oneshotWritten) =
        [⟨.oneshotWritten, [("path", .shown .path (Path.ofText output).text), ("bytes", .integer count)]⟩] ∧
      count = text.length ∧ (count = bytes.length ↔ ∀ c ∈ text.toList, c.toNat < 0x80) := by
  obtain ⟨e, text, status, htells, ht⟩ := exists_deliver hw he
  rw [ht] at he ⊢
  obtain ⟨hread, hevents⟩ := deliver_file ho he
  refine ⟨text, _, text.length, hread, rfl, ?_, rfl, ?_⟩
  · have hnone : (e.pass s.machine s.clock).events.filter (fun event => event.kind = .oneshotWritten) = [] := by
      simpa using kind_of_mem_events htells
    rw [hevents, List.filter_append, hnone]
    rfl
  · rw [eq_comm, Text.Utf8.length_encode_eq_iff]

def intoFile : List String := ["oneshot", "--format", "json", "--output", "out"]

theorem written_size_iff_ascii :
    ∃ (text : String) (bytes : List UInt8) (count : Nat),
      (transcript (figureAlone "MemTotal: 1 kB\n") interrupted intoFile).files.read (.ofText "out") = .ok bytes ∧
      bytes = Text.Utf8.encode text ∧
      (transcript (figureAlone "MemTotal: 1 kB\n") interrupted intoFile).events.filter
          (fun event => event.kind = .oneshotWritten) =
        [⟨.oneshotWritten, [("path", .shown .path (Path.ofText "out").text), ("bytes", .integer count)]⟩] ∧
      count = text.length ∧ (count = bytes.length ↔ ∀ c ∈ text.toList, c.toNat < 0x80) := by
  have hw : Request.ofWords [] intoFile = .ok (.oneshot ⟨"/proc", "/sys", true, false⟩ .json "out") := by
    decide +kernel
  have he : (transcript (figureAlone "MemTotal: 1 kB\n") interrupted intoFile).ending = .exit 0 := by
    decide +kernel
  exact written_size_iff hw (by decide) he

/-- A table with one figure, whose name is not ASCII. -/
def accented : Surroundings :=
  Exporter.quietly ⟨⟨.directory [("proc", .directory [("meminfo", .file (Text.Utf8.encode "é: 1\n"))])], []⟩, none⟩
    Exporter.seconds

/-- The size that an event tells. -/
def sizeTold? (event : Event) : Option Int :=
  match Entries.find? "bytes" event.fields with
  | some (.integer n) => some n
  | _ => none

/-- The file is longer than the event says. -/
theorem not_size_accented :
    Request.ofWords [] intoFile = .ok (.oneshot ⟨"/proc", "/sys", true, false⟩ .json "out") ∧
      (transcript accented interrupted intoFile).ending = .exit 0 ∧
      ¬ ∃ bytes, (transcript accented interrupted intoFile).files.read (.ofText "out") = .ok bytes ∧
        ∀ event ∈ (transcript accented interrupted intoFile).events, event.kind = .oneshotWritten →
          sizeTold? event = some bytes.length := by
  have hfile : (((transcript accented interrupted intoFile).files.read (.ofText "out")).map List.length).toOption =
      some 143 := by decide +kernel
  have hsize : ∃ event ∈ (transcript accented interrupted intoFile).events, event.kind = .oneshotWritten ∧
      sizeTold? event = some 142 := by decide +kernel
  refine ⟨by decide +kernel, by decide +kernel, ?_⟩
  rintro ⟨bytes, hread, hevents⟩
  obtain ⟨event, hmem, hkind, hcount⟩ := hsize
  rw [hread] at hfile
  have hlength : bytes.length = 143 := Option.some.inj hfile
  have h := (hevents event hmem hkind).symm.trans hcount
  rw [hlength] at h
  exact absurd h (by decide)

end Program

end NodeMemory
