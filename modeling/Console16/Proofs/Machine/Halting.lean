import Console16.Proofs.Machine.Pacing
import Console16.Proofs.Machine.Session

/-!
# Console16.Proofs.Machine.Halting

The halt flag. It is set by a request to stop and by a fault, nothing clears it, and only batches
look at it: a batch of a halted machine ends before it begins, an instruction is executed as if the
flag was clear. After a fault a machine stands at the opcode it cannot execute, and no instruction
and no host gets it away from there.

* `Machine.run_halt`: runs do not look at the flag.
* `Machine.halted_after`: it stays set.
* `Machine.Stuck.perform`: what a host does with a machine that met a fault.
* `halting_is_permanent`: what is left of a session after a request to stop or a fault.
-/

namespace Console16

def Outcome.map {M N : Type} (g : M → N) : Outcome M → Outcome N
  | .next m => .next (g m)
  | .fault f m => .fault f (g m)

namespace Machine

variable {S K C : Type}

/-- The same machine with the halt flag clear. -/
def resume (m : Machine S K C) : Machine S K C :=
  { m with halted := false }

theorem halt_resume {m : Machine S K C} (h : m.halted = true) : m.resume.halt = m := by
  obtain ⟨cpu, screen, keypad, clock, random, config, halted⟩ := m
  obtain rfl : halted = true := h
  rfl

/-- Two machines with the same memory, at the same place of their programs and with the same
picture. -/
structure Rests (m k : Machine S K C) : Prop where
  memory : k.cpu.memory = m.cpu.memory
  ip : k.cpu.ip = m.cpu.ip
  flags : k.cpu.flags = m.cpu.flags
  color : k.cpu.color = m.cpu.color
  cycles : k.cpu.cycles = m.cpu.cycles
  screen : k.screen = m.screen

theorem Rests.refl (m : Machine S K C) : Rests m m := ⟨rfl, rfl, rfl, rfl, rfl, rfl⟩

theorem Rests.trans {m k p : Machine S K C} (h : Rests m k) (h' : Rests k p) : Rests m p where
  memory := h'.memory.trans h.memory
  ip := h'.ip.trans h.ip
  flags := h'.flags.trans h.flags
  color := h'.color.trans h.color
  cycles := h'.cycles.trans h.cycles
  screen := h'.screen.trans h.screen

variable [Screen S] [Keypad K] [Clock C]

/-! ## Only batches look at the flag -/

theorem execute_halt (m : Machine S K C) (i : Instr) :
    m.halt.execute i = (m.execute i).map halt := by
  cases i with
  | alu op dest src =>
    simp only [execute]
    split
    · rfl
    · rfl
  | unknown code =>
    simp only [execute, show m.halt.config = m.config from rfl]
    split
    · rfl
    · rfl
  | _ => rfl

theorem step_halt (m : Machine S K C) : m.halt.step = m.step.map halt :=
  execute_halt m m.current

theorem run_halt (n : Nat) (m : Machine S K C) : m.halt.run n = (m.run n).map halt := by
  induction n generalizing m with
  | zero => rfl
  | succ n ih =>
    rw [run, run, step_halt]
    cases m.step with
    | next k => exact ih k
    | fault f k => rfl

/-! ## The flag stays set -/

theorem halted_of_executes {m k : Machine S K C} {past : List (Machine S K C)}
    (h : Executes m past k) (hm : m.halted = true) : k.halted = true := by
  induction h with
  | start => exact hm
  | step _ hstep ih => exact (kept_of_execute hstep).2.1.trans ih
  | setReg _ _ _ ih => exact ih
  | setKeypad _ _ ih => exact ih
  | setClock _ _ ih => exact ih
  | halt _ _ => rfl

theorem halted_after {m : Machine S K C} (h : m.halted = true) (ops : List (HostOp K C)) :
    (m.after ops).halted = true :=
  halted_of_executes (executes_history m ops) h

/-! ## Faults -/

/-- A machine that a fault has left behind, whichever way the instruction was executed. -/
inductive FaultedBy (f : Fault) (m : Machine S K C) : Prop where
  | step {p : Machine S K C} : p.step = .fault f m → FaultedBy f m
  | run {p : Machine S K C} {n : Nat} : p.run n = .fault f m → FaultedBy f m
  | batch {p : Machine S K C} {fuel : Nat} : p.batch fuel = .fault f m → FaultedBy f m

/-- A machine that does nothing but fault. -/
def Stuck (f : Fault) (m : Machine S K C) : Prop :=
  m.step = .fault f m

section
variable {m k : Machine S K C} {f : Fault}

theorem stuck_iff :
    Stuck f m ↔ m.config.features.strict = true ∧ m.current = .unknown f.opcode ∧
      f.addr = m.cpu.ip ∧ m.halted = true := by
  refine step_eq_fault_iff.trans ?_
  have hhalted : m = m.halt ↔ m.halted = true :=
    ⟨fun h => congrArg halted h, fun h => (halt_resume h).symm⟩
  rw [hhalted]

theorem Stuck.halted (h : Stuck f m) : m.halted = true :=
  (stuck_iff.1 h).2.2.2

/-- Nothing of a fault is left behind but the halt flag, so the same fault is met again. -/
theorem stuck_of_fault (h : m.step = .fault f k) : Stuck f k := by
  obtain ⟨hstrict, hcur, haddr, rfl⟩ := step_eq_fault_iff.1 h
  exact stuck_iff.2 ⟨hstrict, hcur, haddr, rfl⟩

theorem FaultedBy.stuck (h : FaultedBy f m) : Stuck f m := by
  cases h with
  | step hfault => exact stuck_of_fault hfault
  | run hfault =>
    obtain ⟨p, -, hp⟩ := paced_of_run_fault hfault
    exact stuck_of_fault hp
  | batch hfault =>
    obtain ⟨p, -, hp⟩ := paced_of_fault hfault
    exact stuck_of_fault hp

theorem Stuck.run (h : Stuck f m) (n : Nat) : (m.run n).machine = m := by
  cases n with
  | zero => rfl
  | succ n => rw [run_fault n h, Outcome.machine]

theorem Stuck.perform (h : Stuck f m) (op : HostOp K C) :
    Stuck f (m.perform op) ∧ Rests m (m.perform op) := by
  obtain ⟨hstrict, hcur, haddr, hhalted⟩ := stuck_iff.1 h
  -- what a host can change is neither the opcode nor its address nor the strictness
  cases op with
  | step =>
    rw [Machine.perform, show m.step = .fault f m from h]
    exact ⟨h, .refl m⟩
  | run n =>
    rw [Machine.perform, h.run]
    exact ⟨h, .refl m⟩
  | batch fuel =>
    rw [Machine.perform, batch_halted fuel hhalted]
    exact ⟨h, .refl m⟩
  | setReg r v =>
    exact ⟨stuck_iff.2 ⟨hstrict, hcur, haddr, hhalted⟩, rfl, rfl, rfl, rfl, rfl, rfl⟩
  | setKeypad keypad =>
    exact ⟨stuck_iff.2 ⟨hstrict, hcur, haddr, hhalted⟩, rfl, rfl, rfl, rfl, rfl, rfl⟩
  | setClock clock =>
    exact ⟨stuck_iff.2 ⟨hstrict, hcur, haddr, hhalted⟩, rfl, rfl, rfl, rfl, rfl, rfl⟩
  | halt => exact ⟨stuck_iff.2 ⟨hstrict, hcur, haddr, rfl⟩, rfl, rfl, rfl, rfl, rfl, rfl⟩

theorem Stuck.after (h : Stuck f m) (ops : List (HostOp K C)) :
    Stuck f (m.after ops) ∧ Rests m (m.after ops) := by
  induction ops generalizing m with
  | nil => exact ⟨h, .refl m⟩
  | cons op ops ih =>
    obtain ⟨hstuck, hrests⟩ := h.perform op
    obtain ⟨hstuck', hrests'⟩ := ih hstuck
    exact ⟨hstuck', hrests.trans hrests'⟩

end

/-- A machine right after a request to stop or a fault. -/
inductive Stopped : Machine S K C → Prop where
  | halt (m : Machine S K C) : Stopped m.halt
  | fault {f : Fault} {m : Machine S K C} : FaultedBy f m → Stopped m

theorem Stopped.halted {m : Machine S K C} (h : Stopped m) : m.halted = true := by
  cases h with
  | halt => rfl
  | fault hfault => exact hfault.stuck.halted

end Machine

/-- Whatever a host does after a request to stop or a fault, the machine is halted: batches do
nothing with it, not even read the clock, and instructions are executed as they would be with the
flag clear. After a fault every instruction meets that fault again, and all that can be changed
from outside are registers, keypad and clock. -/
theorem halting_is_permanent {S K C : Type} [Screen S] [Keypad K] [Clock C] {m : Machine S K C}
    (h : m.Stopped) (ops : List (HostOp K C)) :
    (m.after ops).halted = true ∧
    (∀ fuel, (m.after ops).batch fuel = .halted (m.after ops)) ∧
    (m.after ops).step = (m.after ops).resume.step.map .halt ∧
    (∀ n, (m.after ops).run n = ((m.after ops).resume.run n).map .halt) ∧
    ∀ f, m.FaultedBy f →
      (m.after ops).step = .fault f (m.after ops) ∧
      (∀ n, (m.after ops).run (n + 1) = .fault f (m.after ops)) ∧
      m.Rests (m.after ops) := by
  have hhalted : (m.after ops).halted = true := Machine.halted_after h.halted ops
  have hresume : (m.after ops).resume.halt = m.after ops := Machine.halt_resume hhalted
  refine ⟨hhalted, fun fuel => Machine.batch_halted fuel hhalted, ?_, fun n => ?_, ?_⟩
  · rw [← Machine.step_halt, hresume]
  · rw [← Machine.run_halt, hresume]
  · intro f hfault
    obtain ⟨hstuck, hrests⟩ := hfault.stuck.after ops
    exact ⟨hstuck, fun n => Machine.run_fault n hstuck, hrests⟩

/-- `MOVI A 0x9` and a byte that is no opcode after it, in a batch of a strict machine. -/
theorem exists_fault_batch :
    ∃ m₀ m : Machine PixelLog KeyState ManualClock,
      Machine.boot [0x07, 2, 0, 9, 0x20, 0, 0, 0] PixelLog.empty (KeyState.released .empty)
          (⟨0, 1⟩ : ManualClock) (.ofSeed 7) ⟨10, 100, ⟨true⟩⟩ = .ok m₀ ∧
        m₀.batch 3 = .fault ⟨0x20, 4⟩ m :=
  ⟨_, _, rfl, rfl⟩

theorem halting_is_permanent_of_batch :
    ∃ m : Machine PixelLog KeyState ManualClock, m.Stopped ∧ m.FaultedBy ⟨0x20, 4⟩ ∧
      (m.after [.setReg 2 0, .step, .setClock ⟨90, 1⟩, .batch 2, .run 3]).halted = true ∧
      m.Rests (m.after [.setReg 2 0, .step, .setClock ⟨90, 1⟩, .batch 2, .run 3]) := by
  obtain ⟨m₀, m, -, hbatch⟩ := exists_fault_batch
  have hfault : m.FaultedBy ⟨0x20, 4⟩ := .batch hbatch
  obtain ⟨hhalted, -, -, -, hstuck⟩ := halting_is_permanent (.fault hfault)
    [.setReg 2 0, .step, .setClock ⟨90, 1⟩, .batch 2, .run 3]
  exact ⟨m, .fault hfault, hfault, hhalted, (hstuck _ hfault).2.2⟩

end Console16
