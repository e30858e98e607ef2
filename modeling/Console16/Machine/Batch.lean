import Console16.Machine.Step

/-!
# Console16.Machine.Batch

Batches: runs of whole intervals until a time budget is spent. Whether one ends depends on the
clock, so the number of intervals to try is an argument; a batch that has ended gives the same
answer for every larger number.

* `Machine.batch_halted`: a halted machine executes nothing and does not look at the clock.
-/

namespace Console16

inductive BatchOutcome (M : Type) where
  /-- The budget is spent after so many instructions. -/
  | yielded (cycles : Nat) (m : M)
  /-- The machine was halted before the batch began. -/
  | halted (m : M)
  | fault (f : Fault) (m : M)
  /-- The budget is not spent after the intervals that were allowed. -/
  | unfinished (m : M)

/-- The sum, or the largest reading if it is larger. -/
def saturatingAdd (a b : UInt64) : UInt64 :=
  if a.toNat + b.toNat < UInt64.size then a + b else 0xFFFFFFFFFFFFFFFF

/-- The instructions of one interval, at least one. -/
def RunConfig.intervalCycles (c : RunConfig) : Nat :=
  max c.interval 1

namespace Machine

variable {S K C : Type} [Screen S] [Keypad K] [Clock C]

/-- Runs intervals until a reading after one of them reaches the deadline. The batch began after
`start` instructions. -/
def batchLoop (deadline : UInt64) (start : Nat) : Nat → Machine S K C →
    BatchOutcome (Machine S K C)
  | 0, m => .unfinished m
  | fuel + 1, m =>
    match m.run m.config.intervalCycles with
    | .fault f m => .fault f m
    | .next m =>
      let (now, m) := m.readClock
      if deadline ≤ now then .yielded (m.cpu.cycles - start) m
      else batchLoop deadline start fuel m

/-- Runs until the budget is spent, for at most `fuel` intervals. -/
def batch (fuel : Nat) (m : Machine S K C) : BatchOutcome (Machine S K C) :=
  if m.halted then .halted m
  else
    let start := m.cpu.cycles
    let (now, m) := m.readClock
    batchLoop (saturatingAdd now m.config.budget) start fuel m

theorem batch_halted (fuel : Nat) {m : Machine S K C} (h : m.halted = true) :
    m.batch fuel = .halted m := by
  simp [batch, h]

end Machine
end Console16
