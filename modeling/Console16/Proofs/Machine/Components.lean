import Console16.Machine.Step

/-!
# Console16.Proofs.Machine.Components

One instruction, component by component: what it does to the processor before it ends, where it goes
on, which flags it leaves, and what it does to each device. An instruction that does not fault is
all of these together, so what holds of every instruction is read off one component.

* `Machine.execute_eq`: a fault, or all components together.
* `Machine.of_step_next`: what a step that does not fault leads to.
-/

namespace Console16
namespace Machine

variable {S K C : Type}

/-- The word `INPUT` stores: one for an input that is held down. -/
def inputWord [Keypad K] (m : Machine S K C) (id : Register) : UInt16 :=
  if Keypad.isActive m.keypad (m.cpu.reg id) then 1 else 0

/-- The word `TIME` stores: the milliseconds since the timer was started, cut to a word. -/
def elapsed [Clock C] (m : Machine S K C) : UInt16 :=
  ((Clock.read m.clock).1 - m.cpu.timerRef).toUInt16

/-- The result of an operation on two registers. -/
def result (m : Machine S K C) (op : AluOp) (dest src : Register) : Int :=
  compute op (m.cpu.reg dest) (m.cpu.reg src)

/-- The flags an instruction leaves: those of its operands and its result for arithmetic, none for
any other. -/
def flagsOf (m : Machine S K C) : Instr → Flags
  | .alu op dest src => .ofResult op (m.cpu.reg dest) (m.cpu.reg src) (m.result op dest src)
  | _ => .clear

/-- The address an instruction goes on at, before it is rounded down. -/
def goesOnAt (m : Machine S K C) : Instr → UInt16
  | .call addr | .jmpImm addr => addr
  | .ret extra => m.cpu.top + extra.toUInt16 + 4
  | .jmp target => m.cpu.reg target
  | .jump cond addr => if m.cpu.flags.holds cond then addr else m.cpu.following
  | _ => m.cpu.following

/-- What an instruction does to registers, memory, color and timer. -/
def work [Keypad K] [Clock C] (m : Machine S K C) : Instr → Cpu
  | .input dest id => m.cpu.setReg dest (m.inputWord id)
  | .call _ => m.cpu.push m.cpu.ip
  | .ret _ => m.cpu.drop
  | .load dest addr => m.cpu.setReg dest (m.cpu.memory.readWord (m.cpu.reg addr))
  | .loadImm dest addr => m.cpu.setReg dest (m.cpu.memory.readWord addr)
  | .mov dest src => m.cpu.setReg dest (m.cpu.reg src)
  | .movImm dest value => m.cpu.setReg dest value
  | .push src => m.cpu.push (m.cpu.reg src)
  | .pop dest => m.cpu.drop.setReg dest m.cpu.top
  | .alu op dest src =>
    if op.writesBack then m.cpu.setReg dest (UInt16.ofInt (m.result op dest src)) else m.cpu
  | .color src => m.cpu.setColor ⟨loByte (m.cpu.reg src)⟩
  | .stor src addr => m.cpu.store (m.cpu.reg addr) (m.cpu.reg src)
  | .storImm src addr => m.cpu.store addr (m.cpu.reg src)
  | .time dest => m.cpu.setReg dest m.elapsed
  | .timerRst => m.cpu.setTimerRef (Clock.read m.clock).1
  | .rnd dest => m.cpu.setReg dest m.random.next.1.toUInt16
  | _ => m.cpu

/-- The pixel an instruction plots. -/
def pixel? (m : Machine S K C) : Instr → Option PixelEvent
  | .pixel x y => some ⟨m.cpu.reg x, m.cpu.reg y, m.cpu.color⟩
  | _ => none

theorem work_alu [Keypad K] [Clock C] (m : Machine S K C) (op : AluOp) (dest src : Register) :
    m.work (.alu op dest src) =
      if op.writesBack then m.cpu.setReg dest (UInt16.ofInt (m.result op dest src))
      else m.cpu := rfl

/-- Arithmetic changes nothing that setting its destination does not change. -/
theorem kept_of_work_alu [Keypad K] [Clock C] {α : Type} (f : Cpu → α) {m : Machine S K C}
    {op : AluOp} {dest src : Register} (h : ∀ v, f (m.cpu.setReg dest v) = f m.cpu) :
    f (m.work (.alu op dest src)) = f m.cpu := by
  rw [work_alu]
  split
  · exact h _
  · rfl

theorem cycles_work [Keypad K] [Clock C] (m : Machine S K C) (i : Instr) :
    (m.work i).cycles = m.cpu.cycles := by
  cases i with
  | alu op dest src => exact kept_of_work_alu Cpu.cycles fun _ => rfl
  | _ => rfl

def screenAfter [Screen S] (m : Machine S K C) (i : Instr) : S :=
  match m.pixel? i with
  | some e => Screen.plot m.screen e.x e.y e.color
  | none => m.screen

def clockAfter [Clock C] (m : Machine S K C) : Instr → C
  | .time _ | .timerRst => (Clock.read m.clock).2
  | _ => m.clock

def randomAfter (m : Machine S K C) : Instr → Stream
  | .rnd _ => m.random.next.2
  | _ => m.random

variable [Screen S] [Keypad K] [Clock C]

/-- The machine after an instruction that does not fault. -/
def complete (m : Machine S K C) (i : Instr) : Machine S K C where
  cpu := (m.work i).retire (m.goesOnAt i) (m.flagsOf i)
  screen := m.screenAfter i
  keypad := m.keypad
  clock := m.clockAfter i
  random := m.randomAfter i
  config := m.config
  halted := m.halted

/-- The only instruction that can fault is an unknown opcode, in a strict machine. -/
theorem execute_eq (m : Machine S K C) (i : Instr) :
    (∃ b, i = .unknown b ∧ m.config.features.strict = true ∧
      m.execute i = .fault ⟨b, m.cpu.ip⟩ m.halt) ∨ m.execute i = .next (m.complete i) := by
  cases i with
  | unknown b =>
    by_cases hstrict : m.config.features.strict = true
    · exact .inl ⟨b, rfl, hstrict, if_pos hstrict⟩
    · exact .inr (if_neg hstrict)
  | alu op dest src =>
    refine .inr ?_
    simp only [execute, complete, work_alu]
    split
    · rfl
    · rfl
  | _ => exact .inr rfl

theorem of_execute_next {m k : Machine S K C} {i : Instr} (h : m.execute i = .next k) :
    k = m.complete i := by
  rcases execute_eq m i with ⟨b, -, -, he⟩ | he
  · rw [he] at h
    cases h
  · rw [he] at h
    cases h
    rfl

theorem execute_of_known {m : Machine S K C} {i : Instr} (hi : ∀ b, i ≠ .unknown b) :
    m.execute i = .next (m.complete i) := by
  rcases execute_eq m i with ⟨b, hb, -, -⟩ | he
  · exact absurd hb (hi b)
  · exact he

theorem step_eq {m : Machine S K C} {i : Instr} (hcur : m.current = i)
    (hi : ∀ b, i ≠ .unknown b) : m.step = .next (m.complete i) := by
  subst hcur
  exact execute_of_known hi

theorem of_step_next {m k : Machine S K C} (h : m.step = .next k) : k = m.complete m.current :=
  of_execute_next h

end Machine
end Console16
