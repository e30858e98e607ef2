import Console16.Cli.Failure
import Console16.Config.Settings
import Console16.Device.Framebuffer
import Console16.Machine.Batch

/-!
# Console16.Cli.Drive

A machine run by the clock of the system. The machine reads a clock that stands still; it is set to
the system's time between intervals, so that a program sees the time pass.

* `runCycles`: a given number of instructions.
* `drive`: one batch a tick until a time limit, the rest of the tick asleep.
-/

namespace Console16

abbrev ConsoleMachine := Machine Framebuffer KeyState ManualClock

/-- Milliseconds from the start of one batch to the start of the next. -/
def hostTick : UInt64 := 16

section
variable {m : Type → Type} [Monad m] [Host m]

/-- Sets the machine's clock to the milliseconds since `epoch`. -/
def refresh (epoch : UInt64) (machine : ConsoleMachine) : m ConsoleMachine := do
  let now ← Host.millis
  return machine.setClock (machine.clock.set (now - epoch))

/-- Runs some instructions, or those before the first fault. -/
def advance (n : Nat) (machine : ConsoleMachine) : ExceptT Failure m ConsoleMachine :=
  match machine.run n with
  | .next machine => return machine
  | .fault f _ => throw (.fault f)

/-- Runs `n` whole intervals, setting the clock before each. -/
def runIntervals (epoch : UInt64) : Nat → ConsoleMachine → ExceptT Failure m ConsoleMachine
  | 0, machine => return machine
  | n + 1, machine => do
    let machine ← refresh epoch machine
    let machine ← advance machine.config.intervalCycles machine
    runIntervals epoch n machine

def runCycles (epoch : UInt64) (n : Nat) (machine : ConsoleMachine) :
    ExceptT Failure m ConsoleMachine := do
  let interval := machine.config.intervalCycles
  let machine ← runIntervals epoch (n / interval) machine
  let machine ← refresh epoch machine
  advance (n % interval) machine

/-- Runs intervals until the time reaches the deadline. -/
def driveBatch (epoch deadline : UInt64) : Nat → ConsoleMachine →
    ExceptT Failure m ConsoleMachine
  | 0, machine => return machine
  | fuel + 1, machine => do
    let machine ← advance machine.config.intervalCycles machine
    let machine ← refresh epoch machine
    if deadline ≤ machine.clock.now then return machine else driveBatch epoch deadline fuel machine

/-- Runs one batch a tick until the limit has passed; without a limit it goes on for `fuel`
ticks. -/
def drive (epoch : UInt64) (limit : Option UInt64) : Nat → ConsoleMachine →
    ExceptT Failure m ConsoleMachine
  | 0, machine => return machine
  | fuel + 1, machine => do
    let machine ← refresh epoch machine
    let start := machine.clock.now
    if limit.any (· ≤ start) then return machine.halt
    else
      let deadline := saturatingAdd start machine.config.budget
      let machine ← driveBatch epoch deadline UInt64.size machine
      let spent := machine.clock.now - start
      if spent < hostTick then Host.sleep (hostTick - spent)
      drive epoch limit fuel machine

end
end Console16
