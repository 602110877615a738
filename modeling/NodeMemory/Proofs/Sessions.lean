import NodeMemory.Proofs.Kinds
import NodeMemory.Proofs.Passes
/-!
# Sessions

A session is some scrapes of one exporter, one after another, by a clock that runs on. As long
as the time of every turn can be told in milliseconds no scrape is given up, and then all of a
session is known from its beginning (`Sound.session_eq`): before scrape `i` each collector has
been through scrapes of its own of the earlier machines, and every turn has taken two readings
of the clock, whatever came of it.
-/

namespace NodeMemory

theorem map_mapIdx {α β γ : Type} (g : β → γ) (f : Nat → α → β) (l : List α) :
    (l.mapIdx f).map g = l.mapIdx fun i x => g (f i x) := by
  simp only [List.mapIdx_eq_zipIdx_map, List.map_map]
  rfl

namespace Clock

/-- Reading number `n` from now on. -/
def reading (clock : Clock) (n : Nat) : Binary64 := clock.readings (clock.taken + n)

theorem lap_eq (clock : Clock) (j : Nat) : clock.lap j = (clock.reading (2 * j + 1)).sub (clock.reading (2 * j)) := rfl

/-- The clock after some turns, each of which takes two readings. -/
def after (clock : Clock) (turns : Nat) : Clock := { clock with taken := clock.taken + 2 * turns }

theorem after_zero (clock : Clock) : clock.after 0 = clock := rfl

theorem after_after (clock : Clock) (n k : Nat) : (clock.after n).after k = clock.after (n + k) := by
  simp only [after, Clock.mk.injEq, true_and]
  omega

theorem lap_after (clock : Clock) (n j : Nat) : (clock.after n).lap j = clock.lap (n + j) := by
  have : clock.taken + 2 * n + 2 * j = clock.taken + 2 * (n + j) := by omega
  simp only [lap, after, this]

/-- The times of the next turns can be told in milliseconds. -/
def Tells (clock : Clock) (turns : Nat) : Prop := ∀ j < turns, ∃ ms, Outcome.milliseconds (clock.lap j) = .ok ms

theorem Tells.after {clock : Clock} {n k : Nat} (h : clock.Tells (n + k)) : (clock.after n).Tells k := by
  intro j hj
  rw [lap_after]
  exact h (n + j) (Nat.add_lt_add_left hj n)

theorem Tells.mono {clock : Clock} {n k : Nat} (h : clock.Tells n) (hk : k ≤ n) : clock.Tells k :=
  fun j hj => h j (Nat.lt_of_lt_of_le hj hk)

/-- The first pass of some, and the others after it. -/
theorem Tells.succ {clock : Clock} {n k : Nat} (h : clock.Tells ((n + 1) * k)) :
    clock.Tells k ∧ (clock.after k).Tells (n * k) := by
  rw [Nat.succ_mul, Nat.add_comm] at h
  exact ⟨h.mono (Nat.le_add_right _ _), h.after⟩

end Clock

/-- A scrape, by what it begins with. -/
structure Visit where
  exporter : Exporter
  machine : Machine
  clock : Clock

namespace Visit

def pass (v : Visit) : Exporter.Pass := v.exporter.pass v.machine v.clock

def scrape (v : Visit) : Exporter.Scrape := v.exporter.scrape v.machine v.clock

end Visit

namespace Exporter

/-- The scrapes of some machines, one after another. -/
def session (e : Exporter) (clock : Clock) : List Machine → List Visit
  | [] => []
  | m :: ms => ⟨e, m, clock⟩ :: session (e.scrape m clock).exporter (e.scrape m clock).clock ms

/-- One scrape for each machine, whatever the scrapes come to. -/
theorem machines_session (e : Exporter) (clock : Clock) (ms : List Machine) :
    (session e clock ms).map Visit.machine = ms := by
  induction ms generalizing e clock with
  | nil => rfl
  | cons m ms ih => rw [session, List.map_cons, ih]

/-! ## Sessions that are not given up -/

/-- A turn takes two readings, so a pass that goes through takes two for each collector. -/
theorem clock_turns {m : Machine} {clock : Clock} {cs : List Collector} (h : Tellable (outcomesOf m clock cs)) :
    (turns m clock cs).clock = clock.after cs.length := by
  induction cs generalizing clock with
  | nil => rfl
  | cons c cs ih =>
    rw [outcomesOf_cons] at h
    obtain ⟨⟨event, he⟩, hcs⟩ := List.forall_mem_cons.1 h
    have hc : (c.turn m clock).clock = clock.after 1 := rfl
    simp only [turns, he, Pass.after]
    rw [ih hcs, hc, Clock.after_after, List.length_cons, Nat.add_comm]

/-- Every collector has been through its own scrapes of some machines. -/
def afterScrapes (e : Exporter) (ms : List Machine) : Exporter :=
  { e with collectors := e.collectors.map fun c => c.afterScrapes ms }

theorem afterScrapes_nil (e : Exporter) : e.afterScrapes [] = e := by
  have : e.collectors.map (fun c => c.afterScrapes []) = e.collectors := List.map_id' e.collectors
  rw [afterScrapes, this]

theorem afterScrapes_cons (e : Exporter) (m : Machine) (ms : List Machine) :
    (e.afterScrapes [m]).afterScrapes ms = e.afterScrapes (m :: ms) := by
  simp only [afterScrapes, List.map_map]
  rfl

theorem length_collectors_afterScrapes (e : Exporter) (ms : List Machine) :
    (e.afterScrapes ms).collectors.length = e.collectors.length := List.length_map _

section Sessions
variable {config : Config} {version : String} {e : Exporter} {clock : Clock}

theorem Sound.afterScrapes (h : Sound config version e) (ms : List Machine) :
    Sound config version (e.afterScrapes ms) := by
  refine h.withCollectors (List.forall₂_map_right_iff.2 (List.forall₂_same.2 fun c _ hc => ?_))
  exact ⟨(hc.afterScrapes ms).1, (hc.afterScrapes ms).2.1⟩

/-- The first scrape of some is not given up, and this is what it leaves to the others. -/
theorem Sound.next (h : Sound config version e) (m : Machine) {others : Nat}
    (ht : clock.Tells ((others + 1) * e.collectors.length)) :
    Tellable (outcomesOf m clock e.collectors) ∧ (e.scrape m clock).exporter = e.afterScrapes [m] ∧
      (e.scrape m clock).clock = clock.after e.collectors.length ∧
      (clock.after e.collectors.length).Tells (others * (e.afterScrapes [m]).collectors.length) := by
  obtain ⟨hfirst, hothers⟩ := ht.succ
  have htell := tellable_of_laps (m := m) hfirst
  rw [h.scrape_eq htell, length_collectors_afterScrapes]
  exact ⟨htell, rfl, clock_turns htell, hothers⟩

/-- All scrapes of a session, by what they begin with. -/
theorem Sound.session_eq (h : Sound config version e) {ms : List Machine}
    (ht : clock.Tells (ms.length * e.collectors.length)) :
    session e clock ms =
      ms.mapIdx fun i m => ⟨e.afterScrapes (ms.take i), m, clock.after (i * e.collectors.length)⟩ := by
  induction ms generalizing e clock with
  | nil => rfl
  | cons m ms ih =>
    obtain ⟨-, he, hc, hothers⟩ := h.next m ht
    rw [session, he, hc, ih (h.afterScrapes [m]) hothers, List.mapIdx_cons, List.take_zero, afterScrapes_nil,
      Nat.zero_mul, Clock.after_zero]
    congr 1
    refine congrArg (List.mapIdx · ms) ?_
    funext i m'
    rw [length_collectors_afterScrapes, List.take_succ_cons, afterScrapes_cons, Clock.after_after, Nat.succ_mul,
      Nat.add_comm]

/-- No scrape of such a session is given up. -/
theorem Sound.mem_session (h : Sound config version e) {ms : List Machine}
    (ht : clock.Tells (ms.length * e.collectors.length)) {v : Visit} (hv : v ∈ session e clock ms) :
    Sound config version v.exporter ∧ Tellable (outcomesOf v.machine v.clock v.exporter.collectors) := by
  rw [h.session_eq ht] at hv
  obtain ⟨i, hi, rfl⟩ := List.mem_mapIdx.1 hv
  refine ⟨h.afterScrapes _, tellable_of_laps ?_⟩
  rw [length_collectors_afterScrapes]
  refine (ht.mono ?_).after
  rw [← Nat.succ_mul]
  exact Nat.mul_le_mul_right _ hi

end Sessions

/-! ## Sessions to look at -/

/-- What a session of the machine's collector alone starts with. -/
def tableFresh : Exporter := ⟨[.ofConfig (.default "linux") .machine], (Config.default "linux").scope, "0.1.0"⟩

theorem tells_seconds : seconds.Tells 4 := by
  have h : ∀ j < 4, Outcome.milliseconds (seconds.lap j) = .ok 1000 := by decide +kernel
  exact fun j hj => ⟨1000, h j hj⟩

/-- A clock that stands still. -/
def frozen : Clock := ⟨fun _ => .zero, 0⟩

theorem tells_frozen (turns : Nat) : frozen.Tells turns := by
  have h : Outcome.milliseconds (frozen.lap 0) = .ok 0 := by decide +kernel
  exact fun j _ => ⟨0, h⟩

/-- A clock whose first turn takes longer than milliseconds can tell. -/
def endless : Clock := .ofList [.zero, .ofDecimal false 1 306]

end Exporter

end NodeMemory
