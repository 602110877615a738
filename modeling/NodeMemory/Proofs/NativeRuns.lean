import NodeMemory.Native.Source
import NodeMemory.Proofs.LastValues
import NodeMemory.Proofs.Rounding
/-!
# Runs of a native source

A source that has not been given its host fails without a call while there is no library, and asks
the first library that there is for its host, once and before anything else. Every reading from
then on asks that host four questions and no more than up to the first that fails
(`reading_answered`), whatever the readings before it came to (`Source.readAll_fresh`).
-/

namespace NodeMemory.Native

/-! ## Numbers of eight bytes -/

theorem natOfBytes_lt (bytes : List UInt8) : natOfBytes bytes < 256 ^ bytes.length := by
  induction bytes with
  | nil => exact Nat.one_pos
  | cons b bytes ih =>
    have hb : b.toNat < 256 := b.toNat_lt
    rw [natOfBytes, List.length_cons, Nat.pow_succ']
    omega

theorem wordCount_pos : 0 < wordCount := Nat.pow_pos (by omega)

theorem wordCount_eq : wordCount = 2 ^ 64 := by decide

theorem field_lt (layout : Layout) (buffer : List UInt8) (name : String) : field layout buffer name < wordCount := by
  rw [field]
  split
  · next w offset _ =>
    have hw : w.bytes ≤ 8 := by cases w <;> decide
    have hlength : ((buffer.drop offset).take w.bytes).length ≤ 8 := (List.length_take_le _ _).trans hw
    exact (natOfBytes_lt _).trans_le (Nat.pow_le_pow_right (by omega) hlength)
  · exact wordCount_pos

theorem cast_lt_overflowBound {n : Nat} (h : n < wordCount) : (n : ℚ) < Binary64.overflowBound := by
  calc (n : ℚ) < 2 ^ 64 := by exact_mod_cast wordCount_eq ▸ h
    _ < Binary64.overflowBound := Binary64.two_pow_lt_overflowBound (by omega)

/-- A number of eight bytes is never too large for a figure. -/
theorem bytesOf_natCast {n : Nat} (h : n < wordCount) : bytesOf n = .ok (.ofQuotient false n 1) := by
  rw [bytesOf, Binary64.ofInt?_natCast (cast_lt_overflowBound h)]

theorem exists_bytesOf {n : Nat} (h : n < wordCount) : ∃ x, bytesOf n = .ok x := ⟨_, bytesOf_natCast h⟩

/-! ## Figures -/

/-- The names of the figures, in their order. -/
def figureNames : List String :=
  ["active_bytes", "compressed_bytes", "inactive_bytes", "wired_bytes", "free_bytes", "swapped_in_bytes_total",
    "swapped_out_bytes_total", "internal_bytes", "purgeable_bytes", "total_bytes", "swap_used_bytes",
    "swap_total_bytes"]

/-- All figures, each once. -/
def Complete (result : Except Fault (Keyed Binary64)) : Prop := ∃ table, result = .ok table ∧ table.names = figureNames

theorem ok_bind {ε α β : Type} (a : α) (next : α → Except ε β) : (Except.ok a >>= next) = next a := rfl

/-- Counters and sizes as the library writes them always give all figures. -/
theorem complete_figures (counts swap : List UInt8) {page memory : Nat} (hpage : page < wordCount)
    (hmemory : memory < wordCount) :
    Complete (figures (PageCounts.ofBuffer counts) page memory (SwapUse.ofBuffer swap)) := by
  obtain ⟨pageBytes, hpage⟩ := exists_bytesOf hpage
  obtain ⟨total, htotal⟩ := exists_bytesOf hmemory
  have hcounter (name : String) := exists_bytesOf (field_lt vmLayout counts name)
  have hswap (name : String) := exists_bytesOf (field_lt swapLayout swap name)
  choose counter hcounter using hcounter
  choose size hsize using hswap
  -- No number overflows, and their products are never refused: they may only be rounded.
  have hscaled (name : String) : scaled pageBytes (field vmLayout counts name) = .ok (pageBytes.mul (counter name)) := by
    rw [scaled, hcounter]
    rfl
  simp only [figures, PageCounts.ofBuffer, SwapUse.ofBuffer, hpage, htotal, hscaled, hsize, ok_bind]
  refine ⟨_, rfl, ?_⟩
  rw [Keyed.names_ofList]
  rfl

/-! ## Questions -/

/-- A question to the native library. -/
structure Question where
  call : Call
  /-- What is asked for, in the words of a fault. -/
  subject : String
  /-- What the call returns; the question fails unless this is zero. -/
  returned : Int
  /-- The status in the fault. -/
  reported : Int

def Question.fault? (q : Question) : Option Fault :=
  if q.returned = 0 then none else some (.nativeQuery q.subject q.reported)

def statisticsQuestion (l : Library) (host : Nat) : Question :=
  ⟨.hostStatistics host 4 38, "memory statistics (host_statistics64)", l.vmStatus, l.vmStatus⟩

/-- A control query that fails is reported with the error number. -/
def controlQuestion (l : Library) (name : String) (size : Nat) : Question :=
  ⟨.control name size, "sysctl " ++ name, (l.control name).status, (l.control name).errorNumber⟩

def pageSizeQuestion (l : Library) (host : Nat) : Question :=
  ⟨.hostPageSize host, "page size (host_page_size)", l.pageStatus, l.pageStatus⟩

/-- The questions of a reading, in their order. -/
def questions (l : Library) (host : Nat) : List Question :=
  [statisticsQuestion l host, controlQuestion l "hw.memsize" 8, controlQuestion l "vm.swapusage" 32,
    pageSizeQuestion l host]

/-- The answer to a question: a value, unless the question fails. -/
def Question.answer {α : Type} (q : Question) (value : α) : Answer α :=
  (if q.returned = 0 then .ok value else .error (.nativeQuery q.subject q.reported), q.call)

theorem Question.answer_of_returned {α : Type} {q : Question} (h : q.returned = 0) (value : α) :
    (q.answer value).1 = .ok value := if_pos h

theorem pageCounts_eq (l : Library) (host : Nat) :
    pageCounts l host =
      (statisticsQuestion l host).answer (PageCounts.ofBuffer (fill (sizeOf vmLayout) l.vmBytes)) := by
  have hcount : vmCount = 38 := by decide
  rw [pageCounts, hcount]
  rfl

theorem control_eq (l : Library) (name : String) (layout : Layout) :
    control l name layout =
      (controlQuestion l name (sizeOf layout)).answer (fill (sizeOf layout) (l.control name).bytes) := rfl

theorem Question.map_answer {α β : Type} (q : Question) (value : α) (f : α → β) :
    ((q.answer value).1.map f, (q.answer value).2) = q.answer (f value) := by
  simp only [answer]
  split <;> rfl

theorem memorySize_eq (l : Library) :
    memorySize l = (controlQuestion l "hw.memsize" 8).answer
      (field sizeLayout (fill (sizeOf sizeLayout) (l.control memorySizeName).bytes) "value" : Int) := by
  have hsize : sizeOf sizeLayout = 8 := by decide
  rw [memorySize, control_eq, hsize]
  exact Question.map_answer ..

theorem swapUse_eq (l : Library) :
    swapUse l = (controlQuestion l "vm.swapusage" 32).answer
      (SwapUse.ofBuffer (fill (sizeOf swapLayout) (l.control swapUseName).bytes)) := by
  have hsize : sizeOf swapLayout = 32 := by decide
  rw [swapUse, control_eq, hsize]
  exact Question.map_answer ..

theorem pageSize_eq (l : Library) (host : Nat) :
    pageSize l host = (pageSizeQuestion l host).answer ((l.pageSize % wordCount : Nat) : Int) := rfl

/-! ## One reading -/

/-- What a reading gives, and the calls that it makes. -/
abbrev Reading := Except Fault (Keyed Binary64) × List Call

/-- How a library answers a reading for a host. -/
def reading (l : Library) (host : Nat) : Reading := (Host.ofLibrary l host).read

/-- The questions that are asked: none after the first that fails. -/
def asked : List Question → List Question
  | [] => []
  | q :: later => if q.returned = 0 then q :: asked later else [q]

/-- The questions are asked in their order, up to the first that fails; its fault is the result.
If none fails, all figures are given. -/
structure Answered (qs : List Question) (r : Reading) : Prop where
  calls : r.2 = (asked qs).map Question.call
  failed : ∀ f, qs.findSome? Question.fault? = some f → r.1 = .error f
  complete : qs.findSome? Question.fault? = none → Complete r.1

/-- A question, and the reading that goes on after it unless it fails. -/
def Question.before (q : Question) (later : Reading) : Reading :=
  if q.returned = 0 then (later.1, q.call :: later.2) else (.error (.nativeQuery q.subject q.reported), [q.call])

theorem Answered.before (q : Question) {qs : List Question} {later : Reading} (h : Answered qs later) :
    Answered (q :: qs) (q.before later) := by
  by_cases hq : q.returned = 0
  · have hfault : q.fault? = none := if_pos hq
    rw [Question.before, if_pos hq]
    refine ⟨?_, ?_, ?_⟩
    · rw [asked, if_pos hq, List.map_cons, h.calls]
    · simpa only [List.findSome?_cons, hfault] using h.failed
    · simpa only [List.findSome?_cons, hfault] using h.complete
  · have hfault : q.fault? = some (.nativeQuery q.subject q.reported) := if_neg hq
    rw [Question.before, if_neg hq]
    refine ⟨?_, ?_, ?_⟩
    · rw [asked, if_neg hq, List.map_singleton]
    · simp [hfault]
    · simp [hfault]

/-- Questions that are asked one after the other, before a result that is complete. -/
theorem answered_foldr {result : Except Fault (Keyed Binary64)} (h : Complete result) (qs : List Question) :
    Answered qs (qs.foldr Question.before (result, [])) := by
  induction qs with
  | nil => exact ⟨rfl, by simp, fun _ => h⟩
  | cons q qs ih => exact ih.before q

theorem read_answers (q₁ q₂ q₃ q₄ : Question) (counts : PageCounts) (memory : Int) (swap : SwapUse) (page : Int) :
    Host.read ⟨q₁.answer counts, q₂.answer memory, q₃.answer swap, q₄.answer page⟩ =
      [q₁, q₂, q₃, q₄].foldr Question.before (figures counts page memory swap, []) := by
  simp only [Host.read, Question.answer, List.foldr, Question.before]
  by_cases h₁ : q₁.returned = 0 <;> simp only [h₁, if_true, if_false]
  by_cases h₂ : q₂.returned = 0 <;> simp only [h₂, if_true, if_false]
  by_cases h₃ : q₃.returned = 0 <;> simp only [h₃, if_true, if_false]
  by_cases h₄ : q₄.returned = 0 <;> simp only [h₄, if_true, if_false]

theorem reading_answered (l : Library) (host : Nat) : Answered (questions l host) (reading l host) := by
  rw [reading, Host.ofLibrary, pageCounts_eq, memorySize_eq, swapUse_eq, pageSize_eq, read_answers]
  exact answered_foldr (complete_figures _ _ (Nat.mod_lt _ wordCount_pos) (field_lt ..)) _

theorem names_reading {l : Library} {host : Nat} {table : Keyed Binary64} (h : (reading l host).1 = .ok table) :
    table.names = figureNames := by
  have answered := reading_answered l host
  cases hf : (questions l host).findSome? Question.fault? with
  | some f => cases h.symm.trans (answered.failed f hf)
  | none =>
    obtain ⟨given, hg, hnames⟩ := answered.complete hf
    cases h.symm.trans hg
    exact hnames

/-! ## Runs -/

namespace Source

/-- Whatever a source has been given, it never gives a part of the figures. -/
theorem names_read {s : Source} {library : Option Library} {table : Keyed Binary64}
    (h : (s.read library).1 = .ok table) : table.names = figureNames := by
  unfold read at h
  split at h
  · cases h
  · exact names_reading h

/-- The readings of a source one after the other, each with the library that there is then. -/
def readAll (s : Source) : List (Option Library) → List Reading
  | [] => []
  | library :: later =>
    let (figures, calls, after) := s.read library
    (figures, calls) :: after.readAll later

/-- While there is no library, a source without a host stays as it is. -/
theorem read_fresh_none : fresh.read none = (.error .libraryMissing, [], fresh) := rfl

/-- The first library is asked for its host, before anything else. -/
theorem read_fresh_some (l : Library) :
    fresh.read (some l) = ((reading l l.host).1, .hostSelf :: (reading l l.host).2, ⟨some l.host⟩) := rfl

/-- A source with a host keeps it, whatever a reading comes to. -/
theorem read_given (host : Nat) (library : Option Library) :
    read ⟨some host⟩ library =
      ((reading (library.getD .blank) host).1, (reading (library.getD .blank) host).2, ⟨some host⟩) := by
  cases library <;> rfl

theorem readAll_given (host : Nat) (libraries : List (Option Library)) :
    readAll ⟨some host⟩ libraries = libraries.map fun library => reading (library.getD .blank) host := by
  induction libraries with
  | nil => rfl
  | cons library later ih => simp only [readAll, read_given, ih, List.map_cons]

end Source

/-- The readings of a run: none has a call while there is no library; then the host of the first
library answers every reading, on its own. -/
inductive Runs : List (Option Library) → List Reading → Prop
  | nothing : Runs [] []
  | missing {libraries : List (Option Library)} {readings : List Reading} :
      Runs libraries readings → Runs (none :: libraries) ((.error .libraryMissing, []) :: readings)
  | found (first : Library) (later : List (Option Library)) :
      Runs (some first :: later)
        (((reading first first.host).1, .hostSelf :: (reading first first.host).2) ::
          later.map fun library => reading (library.getD .blank) first.host)

theorem Source.runs_readAll (libraries : List (Option Library)) : Runs libraries (fresh.readAll libraries) := by
  induction libraries with
  | nil => exact .nothing
  | cons library later ih =>
    cases library with
    | none =>
      simp only [readAll, read_fresh_none]
      exact ih.missing
    | some first =>
      simp only [readAll, read_fresh_some, readAll_given]
      exact .found first later

/-- A call that does not ask for a host, and has no other host than this one. -/
def Call.OnHost (host : Nat) : Call → Prop
  | .hostSelf => False
  | .hostStatistics given _ _ => given = host
  | .hostPageSize given => given = host
  | .control _ _ => True

theorem mem_of_mem_asked {qs : List Question} {q : Question} (h : q ∈ asked qs) : q ∈ qs := by
  induction qs with
  | nil => exact h
  | cons other qs ih =>
    rw [asked] at h
    split at h
    · rcases List.mem_cons.1 h with rfl | h
      · exact List.mem_cons_self
      · exact List.mem_cons_of_mem _ (ih h)
    · rw [List.mem_singleton.1 h]
      exact List.mem_cons_self

theorem onHost_of_mem_reading {l : Library} {host : Nat} {call : Call} (h : call ∈ (reading l host).2) :
    call.OnHost host := by
  rw [(reading_answered l host).calls] at h
  obtain ⟨q, hq, rfl⟩ := List.mem_map.1 h
  have hq := mem_of_mem_asked hq
  simp only [questions, List.mem_cons, List.not_mem_nil, or_false] at hq
  rcases hq with rfl | rfl | rfl | rfl
  · exact rfl
  · exact trivial
  · exact trivial
  · exact rfl

/-- The calls of a run: none without a library. The first asks for the host of the first library,
and no later one asks for a host or goes to another. -/
structure Logged (libraries : List (Option Library)) (log : List Call) : Prop where
  nothing : libraries.findSome? id = none → log = []
  found : ∀ first, libraries.findSome? id = some first →
    ∃ calls, log = .hostSelf :: calls ∧ ∀ call ∈ calls, call.OnHost first.host

theorem Runs.logged {libraries : List (Option Library)} {readings : List Reading} (h : Runs libraries readings) :
    Logged libraries (readings.flatMap Prod.snd) := by
  induction h with
  | nothing => exact ⟨fun _ => rfl, by simp⟩
  | missing _ ih => exact ⟨fun hl => ih.nothing hl, fun first hl => ih.found first hl⟩
  | found first later =>
    refine ⟨by simp, ?_⟩
    intro other hother
    cases hother
    rw [List.flatMap_cons, List.cons_append]
    refine ⟨_, rfl, ?_⟩
    simp only [List.mem_append, List.mem_flatMap, List.mem_map]
    rintro call (hcall | ⟨_, ⟨library, -, rfl⟩, hcall⟩)
    · exact onHost_of_mem_reading hcall
    · exact onHost_of_mem_reading hcall

/-- **Runs of a source.** A source that was not given a host fails without a call until there is a
library, and then asks that library for its host. Each reading asks this host anew: its questions
in their order up to the first that fails, which is the fault, or all of them for all figures. No
other call of the run asks for a host. -/
theorem Source.readAll_fresh (libraries : List (Option Library)) :
    Runs libraries (fresh.readAll libraries) ∧
      (∀ l host, Answered (questions l host) (reading l host)) ∧
      Logged libraries ((fresh.readAll libraries).flatMap Prod.snd) :=
  ⟨runs_readAll libraries, reading_answered, (runs_readAll libraries).logged⟩

end NodeMemory.Native
