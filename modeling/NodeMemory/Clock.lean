import NodeMemory.Number.Binary64
/-!
# Clocks

A clock that runs on gives one reading after another. How long something took is
the difference of the readings before and after it.
-/

namespace NodeMemory

/-- The readings of a clock, in seconds, and how many have been taken. -/
structure Clock where
  readings : Nat → Binary64
  taken : Nat

namespace Clock

/-- The next reading, and the clock after it. -/
def read (c : Clock) : Binary64 × Clock := (c.readings c.taken, { c with taken := c.taken + 1 })

/-- A clock whose readings are given; the last of them repeats. -/
def ofList (readings : List Binary64) : Clock :=
  ⟨fun n => readings.getD n (readings.getLastD .nan), 0⟩

end Clock

end NodeMemory
