import Console16.Proofs.Machine.Loaded
import Console16.Proofs.Machine.Stepwise

/-!
# Console16.Proofs.Machine.Effect

What instructions do to memory and instruction pointer, and what follows for runs. An instruction
ends at an address that is a multiple of four and writes at most one word; a fault leaves the
processor as it was. Between instructions the devices may change in any way.

* `Machine.memory_work`: the word an instruction writes.
* `Machine.aligned_step`, `Machine.holds_step`: what one step keeps, a fault too.
* `Runs.invariant`: what no step breaks holds along every run.
-/

namespace Console16

/-- Where a jump to an address in its code word goes, if it is taken. -/
def Instr.jumpsTo? (flags : Flags) : Instr → Option UInt16
  | .call addr => some addr
  | .jmpImm addr => some addr
  | .jump cond addr => if flags.holds cond then some addr else none
  | _ => none

/-- The instructions that write to memory. -/
def Instr.stores : Instr → Bool
  | .push _ | .call _ | .stor .. | .storImm .. => true
  | _ => false

/-! ## Addresses -/

theorem land_mask_of_aligned {n : Nat} (h : n % 4 = 0) (hlt : n < 65536) : n &&& 0xFFFC = n := by
  have hn : n = (n / 4) <<< 2 := by
    rw [Nat.shiftLeft_eq]
    omega
  rw [hn, show 0xFFFC = (2 ^ 14 - 1) <<< 2 from rfl, ← Nat.shiftLeft_and_distrib,
    Nat.and_two_pow_sub_one_eq_mod, Nat.mod_eq_of_lt (by omega)]

theorem and_mask_of_aligned {a : UInt16} (h : a.toNat % 4 = 0) : a &&& 0xFFFC = a := by
  apply UInt16.toNat_inj.1
  rw [UInt16.toNat_and]
  exact land_mask_of_aligned h a.toNat_lt

namespace Machine

variable {S K C : Type}

/-- The address of the word an instruction writes. -/
def storeAddr? (m : Machine S K C) : Instr → Option UInt16
  | .push _ | .call _ => some (m.cpu.reg .sp + 2)
  | .stor _ addr => some (m.cpu.reg addr)
  | .storImm _ addr => some addr
  | _ => none

/-- The next instruction writes no byte below a limit. -/
def Spares (limit : Nat) (m : Machine S K C) : Prop :=
  ∀ a, m.storeAddr? m.current = some a → limit ≤ a.toNat ∧ limit ≤ (a + 1).toNat

theorem storeAddr?_eq_none {m : Machine S K C} {i : Instr} (h : i.stores = false) :
    m.storeAddr? i = none := by
  cases i <;> first | rfl | cases h

theorem spares_of_stores {m : Machine S K C} (h : m.current.stores = false) (limit : Nat) :
    m.Spares limit := by
  intro a ha
  rw [storeAddr?_eq_none h] at ha
  cases ha

theorem goesOnAt_of_jumpsTo? {m : Machine S K C} {i : Instr} {a : UInt16}
    (h : i.jumpsTo? m.cpu.flags = some a) : m.goesOnAt i = a := by
  cases i with
  | call addr => exact Option.some.inj h
  | jmpImm addr => exact Option.some.inj h
  | jump cond addr =>
    simp only [Instr.jumpsTo?] at h
    split at h
    · rename_i hc
      cases h
      exact if_pos hc
    · cases h
  | _ => cases h

/-- An instruction writes at most one word. -/
theorem memory_work [Keypad K] [Clock C] (m : Machine S K C) (i : Instr) :
    (m.work i).memory = m.cpu.memory ∨
      ∃ a v, m.storeAddr? i = some a ∧ (m.work i).memory = m.cpu.memory.writeWord a v := by
  cases i with
  | call | push | stor | storImm => exact .inr ⟨_, _, rfl, rfl⟩
  | alu op dest src => exact .inl (kept_of_work_alu Cpu.memory fun _ => rfl)
  | _ => exact .inl rfl

theorem read_work [Keypad K] [Clock C] {m : Machine S K C} {i : Instr} {x : UInt16}
    (h : ∀ a, m.storeAddr? i = some a → x ≠ a ∧ x ≠ a + 1) :
    (m.work i).memory.read x = m.cpu.memory.read x := by
  rcases memory_work m i with hmem | ⟨a, v, ha, hmem⟩
  · rw [hmem]
  · obtain ⟨hhi, hlo⟩ := h a ha
    rw [hmem, Memory.read_writeWord, if_neg hlo, if_neg hhi]

/-! ## One step -/

variable [Screen S] [Keypad K] [Clock C]

section
variable {m : Machine S K C} {limit : Nat} {image : List UInt8}

theorem aligned_step (h : m.cpu.ip.toNat % 4 = 0) : m.step.machine.cpu.ip.toNat % 4 = 0 := by
  cases hstep : m.step with
  | next k =>
    obtain rfl := of_step_next hstep
    exact Cpu.ip_retire _ _ _
  | fault f k =>
    obtain ⟨-, -, -, rfl⟩ := of_step_fault hstep
    exact h

theorem read_step {x : UInt16}
    (h : ∀ a, m.storeAddr? m.current = some a → x ≠ a ∧ x ≠ a + 1) :
    m.step.machine.cpu.memory.read x = m.cpu.memory.read x := by
  cases hstep : m.step with
  | next k =>
    obtain rfl := of_step_next hstep
    exact read_work h
  | fault f k =>
    obtain ⟨-, -, -, rfl⟩ := of_step_fault hstep
    rfl

theorem holds_step (hs : m.Spares limit) (h : m.cpu.memory.Holds limit image) :
    m.step.machine.cpu.memory.Holds limit image := by
  intro x hx
  rw [read_step, h x hx]
  intro a ha
  obtain ⟨hhi, hlo⟩ := hs a ha
  constructor
  · rintro rfl
    omega
  · rintro rfl
    omega

theorem step_of_jumpsTo? {a : UInt16} (h : m.current.jumpsTo? m.cpu.flags = some a) :
    ∃ m', m.step = .next m' ∧ m'.cpu.ip = a &&& 0xFFFC := by
  refine ⟨_, step_eq rfl fun b hb => ?_, ?_⟩
  · rw [hb] at h
    cases h
  · exact congrArg (· &&& 0xFFFC) (goesOnAt_of_jumpsTo? h)

theorem unknown_of_fault {f : Fault} {m' : Machine S K C} (h : m.step = .fault f m') :
    ∃ code, m.current = .unknown code := by
  obtain ⟨code, hcur, -⟩ := of_step_fault h
  exact ⟨code, hcur⟩

end

/-! ## Runs -/

/-- Runs in which a condition holds of the machine before every instruction. A fault leaves the
processor as it is and does not end the run; between instructions everything but the processor may
change. -/
inductive Runs (m₀ : Machine S K C) (P : Machine S K C → Prop) : Machine S K C → Prop where
  | start : Runs m₀ P m₀
  | step {m : Machine S K C} : Runs m₀ P m → P m → Runs m₀ P m.step.machine
  | outside {m m' : Machine S K C} : Runs m₀ P m → m'.cpu = m.cpu → Runs m₀ P m'

section
variable {m₀ m : Machine S K C} {P : Machine S K C → Prop}

theorem Runs.mono {Q : Machine S K C → Prop} (h : m₀.Runs P m) (hPQ : ∀ m, P m → Q m) :
    m₀.Runs Q m := by
  induction h with
  | start => exact .start
  | step _ hP ih => exact .step ih (hPQ _ hP)
  | outside _ hcpu ih => exact .outside ih hcpu

theorem Runs.invariant {I : Cpu → Prop} (hstep : ∀ m, P m → I m.cpu → I m.step.machine.cpu)
    (h : m₀.Runs P m) (h₀ : I m₀.cpu) : I m.cpu := by
  induction h with
  | start => exact h₀
  | step _ hP ih => exact hstep _ hP ih
  | outside _ hcpu ih => exact hcpu ▸ ih

theorem Runs.aligned (h : m₀.Runs P m) (h₀ : m₀.cpu.ip.toNat % 4 = 0) :
    m.cpu.ip.toNat % 4 = 0 :=
  h.invariant (I := fun cpu => cpu.ip.toNat % 4 = 0) (fun _ _ => aligned_step) h₀

theorem Runs.holds {limit : Nat} {image : List UInt8} (h : m₀.Runs (Spares limit) m)
    (h₀ : m₀.cpu.memory.Holds limit image) : m.cpu.memory.Holds limit image :=
  h.invariant (I := fun cpu => cpu.memory.Holds limit image) (fun _ => holds_step) h₀

end

end Machine
end Console16
