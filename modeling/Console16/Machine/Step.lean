import Console16.Machine.Basic
import Console16.Text.Hex

/-!
# Console16.Machine.Step

One instruction, and runs of a given number of them. `execute` is the meaning of every instruction
form; a fault leaves the machine as it was, except that it is halted.

* `Machine.run_add`: a run of `a + b` instructions is a run of `b` after a run of `a`.
* `Machine.run_fault`: a fault ends a run.
-/

namespace Console16

namespace Fault

def message (f : Fault) : String :=
  "Unknown opcode 0x" ++ String.ofList (Text.Hex.ofByte f.opcode) ++ " at address 0x"
    ++ String.ofList (Text.Hex.ofWord f.addr) ++ "."

def code (_ : Fault) : String :=
  "run::unknown_opcode"

def help (_ : Fault) : String :=
  "disable the `strict` feature to execute unknown opcodes as NOP"

end Fault

namespace Machine

variable {S K C : Type} [Screen S] [Keypad K] [Clock C]

/-- Executes one instruction at the instruction pointer. -/
def execute (m : Machine S K C) : Instr → Outcome (Machine S K C)
  | .nop => .next { m with cpu := m.cpu.advance }
  | .input dest id =>
    let active := Keypad.isActive m.keypad (m.cpu.reg id)
    .next { m with cpu := (m.cpu.setReg dest (if active then 1 else 0)).advance }
  | .call addr => .next { m with cpu := (m.cpu.push m.cpu.ip).goto addr }
  | .ret extra =>
    let next := m.cpu.top + extra.toUInt16 + 4
    .next { m with cpu := m.cpu.drop.goto next }
  | .load dest addr =>
    let v := m.cpu.memory.readWord (m.cpu.reg addr)
    .next { m with cpu := (m.cpu.setReg dest v).advance }
  | .loadImm dest addr =>
    let v := m.cpu.memory.readWord addr
    .next { m with cpu := (m.cpu.setReg dest v).advance }
  | .mov dest src => .next { m with cpu := (m.cpu.setReg dest (m.cpu.reg src)).advance }
  | .movImm dest value => .next { m with cpu := (m.cpu.setReg dest value).advance }
  | .push src => .next { m with cpu := (m.cpu.push (m.cpu.reg src)).advance }
  | .pop dest =>
    let v := m.cpu.top
    .next { m with cpu := (m.cpu.drop.setReg dest v).advance }
  | .alu op dest src =>
    let d := m.cpu.reg dest
    let s := m.cpu.reg src
    let result := compute op d s
    let flags := Flags.ofResult op d s result
    let next := m.cpu.following
    if op.writesBack then
      .next { m with cpu := (m.cpu.setReg dest (UInt16.ofInt result)).retire next flags }
    else .next { m with cpu := m.cpu.retire next flags }
  | .color src =>
    let color : Color := ⟨loByte (m.cpu.reg src)⟩
    .next { m with cpu := (m.cpu.setColor color).advance }
  | .pixel x y =>
    let screen := Screen.plot m.screen (m.cpu.reg x) (m.cpu.reg y) m.cpu.color
    .next { m with cpu := m.cpu.advance, screen }
  | .stor src addr =>
    .next { m with cpu := (m.cpu.store (m.cpu.reg addr) (m.cpu.reg src)).advance }
  | .storImm src addr => .next { m with cpu := (m.cpu.store addr (m.cpu.reg src)).advance }
  | .time dest =>
    let (now, clock) := Clock.read m.clock
    let elapsed := (now - m.cpu.timerRef).toUInt16
    .next { m with cpu := (m.cpu.setReg dest elapsed).advance, clock }
  | .timerRst =>
    let (now, clock) := Clock.read m.clock
    .next { m with cpu := (m.cpu.setTimerRef now).advance, clock }
  | .rnd dest =>
    let (word, random) := m.random.next
    .next { m with cpu := (m.cpu.setReg dest word.toUInt16).advance, random }
  | .jmp target => .next { m with cpu := m.cpu.goto (m.cpu.reg target) }
  | .jmpImm addr => .next { m with cpu := m.cpu.goto addr }
  | .jump cond addr =>
    let next := if m.cpu.flags.holds cond then addr else m.cpu.following
    .next { m with cpu := m.cpu.goto next }
  | .unknown code =>
    if m.config.features.strict then .fault ⟨code, m.cpu.ip⟩ m.halt
    else .next { m with cpu := m.cpu.advance }

/-- The instruction the machine executes next. -/
def current (m : Machine S K C) : Instr :=
  .decode (m.cpu.memory.fetch m.cpu.ip)

def step (m : Machine S K C) : Outcome (Machine S K C) :=
  m.execute m.current

/-- Executes `n` instructions, or those before the first fault. -/
def run : Nat → Machine S K C → Outcome (Machine S K C)
  | 0, m => .next m
  | n + 1, m =>
    match m.step with
    | .next m => m.run n
    | .fault f m => .fault f m

theorem run_add (a b : Nat) (m : Machine S K C) :
    m.run (a + b) =
      match m.run a with
      | .next m => m.run b
      | .fault f m => .fault f m := by
  induction a generalizing m with
  | zero => simp [run]
  | succ a ih =>
    rw [Nat.succ_add, run, run]
    cases m.step with
    | next m => exact ih m
    | fault f m => rfl

theorem run_fault {m : Machine S K C} {f : Fault} {m' : Machine S K C} (n : Nat)
    (h : m.step = .fault f m') : m.run (n + 1) = .fault f m' := by
  simp [run, h]

end Machine
end Console16
