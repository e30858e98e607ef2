import Console16.Proofs.Machine.Pacing
import Console16.Proofs.Machine.Stack

/-!
# Console16.Proofs.Machine.Frame

What an instruction leaves alone. A step that succeeds goes on at another place, sets or clears the
flags and is counted; besides, it changes what its instruction names and nothing else. Which of the
registers an instruction names are the same makes no difference, the stack pointer among them, and
neither does a word that goes around the end of memory or over the instruction itself.

* `Machine.changes_complete`: one instruction, part by part.
* `step_changes_what_is_named`: every step that succeeds.
-/

namespace Console16
namespace Machine

variable {S K C : Type} [Screen S] [Keypad K] [Clock C]

/-- All that an instruction may do to a machine, the place where it goes on, the flags and the count
of instructions apart. -/
structure Changes (m : Machine S K C) (i : Instr) (k : Machine S K C) : Prop where
  regs : ∀ r, i.dest? ≠ some r → (i.movesStack = true → r ≠ .sp) → k.cpu.reg r = m.cpu.reg r
  memory : ∀ x, (∀ a, m.storeAddr? i = some a → x ≠ a ∧ x ≠ a + 1) →
    k.cpu.memory.read x = m.cpu.memory.read x
  /-- The stack pointer is pushed as it was before it moves. -/
  pushed : ∀ src, i = .push src → m.Pushes (m.cpu.reg src) k
  called : ∀ addr, i = .call addr → m.Pushes m.cpu.ip k
  /-- A word that is popped into the stack pointer stays there. -/
  popped : ∀ dest, i = .pop dest → k.cpu.reg dest = m.cpu.memory.readWord (m.cpu.reg .sp) ∧
    (dest ≠ .sp → k.cpu.reg .sp = m.cpu.reg .sp - 2)
  returned : ∀ extra, i = .ret extra → m.Pops k
  color : k.cpu.color =
    match i with
    | .color src => ⟨loByte (m.cpu.reg src)⟩
    | _ => m.cpu.color
  timerRef : k.cpu.timerRef =
    match i with
    | .timerRst => (Clock.read m.clock).1
    | _ => m.cpu.timerRef
  screen : k.screen =
    match i with
    | .pixel x y => Screen.plot m.screen (m.cpu.reg x) (m.cpu.reg y) m.cpu.color
    | _ => m.screen
  random : k.random =
    match i with
    | .rnd _ => m.random.next.2
    | _ => m.random
  clock : k.clock = if i.readsClock then (Clock.read m.clock).2 else m.clock
  keypad : k.keypad = m.keypad
  config : k.config = m.config
  halted : k.halted = m.halted

theorem changes_complete (m : Machine S K C) (i : Instr) : m.Changes i (m.complete i) where
  regs r hdest hstack := reg_work hdest hstack
  memory x hx := read_work hx
  pushed := by
    rintro src rfl
    exact ⟨Cpu.sp_push m.cpu (m.cpu.reg src), rfl⟩
  called := by
    rintro addr rfl
    exact ⟨Cpu.sp_push m.cpu m.cpu.ip, rfl⟩
  popped := by
    rintro dest rfl
    have hreg : ∀ r, (m.complete (.pop dest)).cpu.reg r =
        if dest = r then m.cpu.top else m.cpu.drop.reg r :=
      fun r => Cpu.reg_setReg m.cpu.drop dest r m.cpu.top
    refine ⟨by rw [hreg, if_pos rfl, Cpu.top], fun hne => ?_⟩
    rw [hreg, if_neg hne, Cpu.sp_drop]
  returned := by
    rintro extra rfl
    exact ⟨Cpu.sp_drop m.cpu, rfl⟩
  color := by
    cases i with
    | alu op dest src => exact kept_of_work_alu Cpu.color fun _ => rfl
    | _ => rfl
  timerRef := by
    cases i with
    | alu op dest src => exact kept_of_work_alu Cpu.timerRef fun _ => rfl
    | _ => rfl
  screen := by cases i <;> rfl
  random := by cases i <;> rfl
  clock := by cases i <;> rfl
  keypad := rfl
  config := rfl
  halted := rfl

end Machine

/-- A step that succeeds changes no register, no byte of memory and no part of the machine but those
that its instruction names. -/
theorem step_changes_what_is_named {S K C : Type} [Screen S] [Keypad K] [Clock C]
    {m k : Machine S K C} (h : m.step = .next k) : m.Changes m.current k := by
  obtain rfl := Machine.of_step_next h
  exact Machine.changes_complete m m.current

/-- `PUSH SP` at address 0, with the stack pointer at `0xFFFD`: the word goes to `0xFFFF` and over
the first byte of the instruction. -/
theorem exists_push_over_itself :
    ∃ m₀ k : Machine PixelLog KeyState ManualClock,
      Machine.boot [8, 0, 0, 0] PixelLog.empty (KeyState.released .empty) (⟨0, 1⟩ : ManualClock)
          (.ofSeed 7) .default = .ok m₀ ∧
        (m₀.setReg .sp 0xFFFD).current = .push .sp ∧ (m₀.setReg .sp 0xFFFD).step = .next k ∧
        k.cpu.memory.read 0 = 0xFD :=
  ⟨_, _, rfl, rfl, rfl, rfl⟩

theorem step_changes_what_is_named_of_push_sp :
    ∃ m k : Machine PixelLog KeyState ManualClock, m.step = .next k ∧ m.current = .push .sp ∧
      m.Changes m.current k ∧ k.cpu.reg .sp = m.cpu.reg .sp + 2 ∧
      k.cpu.memory.readWord (m.cpu.reg .sp + 2) = m.cpu.reg .sp ∧ k.cpu.memory.read 0 = 0xFD := by
  obtain ⟨m₀, k, -, hcur, hstep, hread⟩ := exists_push_over_itself
  have hchanges := step_changes_what_is_named hstep
  have hpush := hchanges.pushed _ hcur
  refine ⟨_, k, hstep, hcur, hchanges, hpush.sp, ?_, hread⟩
  rw [hpush.memory]
  exact Memory.readWord_writeWord _ _ _

end Console16
