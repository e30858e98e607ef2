import Console16.Device.Screen
import Console16.Machine.Flags
import Console16.Machine.Memory

/-!
# Console16.Machine.Cpu

The state of the processor, apart from the devices it is wired to. The stack grows upwards: the
pointer moves first, then the word is written where it points.

* `Cpu.reg_setReg`: a register reads as last written.
* `Cpu.sp_push`, `Cpu.sp_drop`: the stack pointer moves by a word.
* `Cpu.ip_retire`: the instruction pointer is always a multiple of four.
-/

namespace Console16

structure Cpu where
  regs : Vector UInt16 16
  memory : Memory
  ip : UInt16
  flags : Flags
  /-- The color `PIXEL` plots in. -/
  color : Color
  /-- The clock reading `TIME` counts from. -/
  timerRef : UInt64
  /-- Instructions executed so far. Stands for a counter of 64 bits, up to `2 ^ 64` instructions. -/
  cycles : Nat

namespace Cpu

/-- A processor about to execute its first instruction. -/
def start (memory : Memory) (timerRef : UInt64) : Cpu :=
  ⟨Vector.replicate 16 0, memory, 0, .clear, .black, timerRef, 0⟩

def reg (c : Cpu) (r : Register) : UInt16 :=
  c.regs.get r

def setReg (c : Cpu) (r : Register) (v : UInt16) : Cpu :=
  { c with regs := c.regs.set r v r.val_lt }

def setMemory (c : Cpu) (memory : Memory) : Cpu :=
  { c with memory }

def setColor (c : Cpu) (color : Color) : Cpu :=
  { c with color }

def setTimerRef (c : Cpu) (timerRef : UInt64) : Cpu :=
  { c with timerRef }

def store (c : Cpu) (a v : UInt16) : Cpu :=
  { c with memory := c.memory.writeWord a v }

/-- Moves the stack pointer up a word and writes there. -/
def push (c : Cpu) (v : UInt16) : Cpu :=
  let top := c.reg .sp + 2
  (c.setReg .sp top).store top v

/-- The word the stack pointer points at. -/
def top (c : Cpu) : UInt16 :=
  c.memory.readWord (c.reg .sp)

/-- Moves the stack pointer down a word. -/
def drop (c : Cpu) : Cpu :=
  c.setReg .sp (c.reg .sp - 2)

/-- The address of the instruction after this one. -/
def following (c : Cpu) : UInt16 :=
  c.ip + 4

/-- Ends an instruction: goes on at `next`, rounded down to a multiple of four. -/
def retire (c : Cpu) (next : UInt16) (flags : Flags) : Cpu :=
  { c with ip := next &&& 0xFFFC, flags, cycles := c.cycles + 1 }

/-- Ends an instruction that neither jumps nor sets flags. -/
def advance (c : Cpu) : Cpu :=
  c.retire c.following .clear

/-- Ends a jump. -/
def goto (c : Cpu) (next : UInt16) : Cpu :=
  c.retire next .clear

theorem reg_setReg (c : Cpu) (r s : Register) (v : UInt16) :
    (c.setReg r v).reg s = if r = s then v else c.reg s := by
  change (c.regs.set r.val v)[s.val] = if r = s then v else c.regs[s.val]
  simp only [Vector.getElem_set, Fin.ext_iff]

@[simp] theorem reg_setReg_self (c : Cpu) (r : Register) (v : UInt16) :
    (c.setReg r v).reg r = v := by
  rw [reg_setReg, if_pos rfl]

theorem sp_push (c : Cpu) (v : UInt16) : (c.push v).reg .sp = c.reg .sp + 2 := by
  change (c.setReg .sp (c.reg .sp + 2)).reg .sp = c.reg .sp + 2
  rw [reg_setReg_self]

theorem sp_drop (c : Cpu) : c.drop.reg .sp = c.reg .sp - 2 := by
  rw [drop, reg_setReg_self]

theorem ip_retire (c : Cpu) (next : UInt16) (flags : Flags) :
    (c.retire next flags).ip.toNat % 4 = 0 := by
  have h : (next.toNat &&& 0xFFFC) % 4 = 0 := by
    rw [show (4 : Nat) = 2 ^ 2 from rfl, Nat.and_mod_two_pow]
    simp
  simpa [retire, UInt16.toNat_and] using h

end Cpu
end Console16
