import Console16.Config.Features
import Console16.Device.Clock
import Console16.Device.Keys
import Console16.Machine.Cpu
import Console16.Random.Stream

/-!
# Console16.Machine.Basic

A processor wired to a screen, a keypad, a clock and a stream of random words.
-/

namespace Console16

structure RunConfig where
  /-- Milliseconds a batch may take. -/
  budget : UInt64
  /-- Instructions between two looks at the clock. -/
  interval : Nat
  features : Features
  deriving DecidableEq, Repr

/-- Ten milliseconds, a look at the clock every hundred instructions, no features. -/
def RunConfig.default : RunConfig := ⟨10, 100, .none⟩

structure Machine (S K C : Type) where
  cpu : Cpu
  screen : S
  keypad : K
  clock : C
  random : Stream
  config : RunConfig
  /-- Set by a request to stop and by a fault; batches look at it before they start. -/
  halted : Bool

/-- An opcode outside the table, met by a strict machine. -/
structure Fault where
  opcode : UInt8
  addr : UInt16
  deriving DecidableEq, Repr

/-- What one instruction, or a run of them, leads to. -/
inductive Outcome (M : Type) where
  | next (m : M)
  | fault (f : Fault) (m : M)

/-- The machine an outcome leaves behind. -/
def Outcome.machine {M : Type} : Outcome M → M
  | .next m => m
  | .fault _ m => m

namespace Machine

variable {S K C : Type}

/-- A machine with an image in memory and everything else at rest. The timer counts from a reading
of the clock. -/
def boot [Clock C] (image : List UInt8) (screen : S) (keypad : K) (clock : C) (random : Stream)
    (config : RunConfig) : Except LoadError (Machine S K C) :=
  match Memory.load image with
  | .error e => .error e
  | .ok memory =>
    let (now, clock) := Clock.read clock
    .ok ⟨.start memory now, screen, keypad, clock, random, config, false⟩

def readClock [Clock C] (m : Machine S K C) : UInt64 × Machine S K C :=
  let (now, clock) := Clock.read m.clock
  (now, { m with clock })

/-- Random words are drawn from the stream of a seed, from its first word on. -/
def withSeed (m : Machine S K C) (seed : UInt64) : Machine S K C :=
  { m with random := .ofSeed seed }

def halt (m : Machine S K C) : Machine S K C :=
  { m with halted := true }

def setReg (m : Machine S K C) (r : Register) (v : UInt16) : Machine S K C :=
  { m with cpu := m.cpu.setReg r v }

def setKeypad (m : Machine S K C) (keypad : K) : Machine S K C :=
  { m with keypad }

def setClock (m : Machine S K C) (clock : C) : Machine S K C :=
  { m with clock }

end Machine
end Console16
