import Console16.Machine.Cpu
import Mathlib.Data.List.Induction

/-!
# Console16.Proofs.Machine.Lifo

The stack as a list of words. What is pushed word by word is popped in the opposite order, wherever
the stack pointer stands, as long as the words fit into memory: up to 32768 of them, which is all of
it. Afterwards nothing is different but the bytes that held the words.

* `Cpu.drop_push`: a word pushed and taken off again leaves its bytes in memory.
* `Cpu.popMany_setMemory`: pops only read the words on the stack.
* `stack_is_lifo`: any row of pushes and as many pops.
-/

namespace Console16
namespace Cpu

/-- Pushes the words of a list, the first one first. -/
def pushAll (c : Cpu) (vs : List UInt16) : Cpu :=
  vs.foldl push c

/-- Takes `n` words off the stack: the words, the topmost first, and the processor after that. -/
def popMany : Nat → Cpu → List UInt16 × Cpu
  | 0, c => ([], c)
  | n + 1, c => (c.top :: (popMany n c.drop).1, (popMany n c.drop).2)

/-- The address of word `i` of the stack, counted from the top. -/
def slot (c : Cpu) (i : Nat) : UInt16 :=
  c.reg .sp - UInt16.ofNat (2 * i)

theorem pushAll_concat (c : Cpu) (vs : List UInt16) (v : UInt16) :
    c.pushAll (vs ++ [v]) = (c.pushAll vs).push v := by
  simp [pushAll]

/-! ## One word -/

theorem top_push (c : Cpu) (v : UInt16) : (c.push v).top = v := by
  rw [top, sp_push]
  exact Memory.readWord_writeWord _ _ _

theorem drop_push (c : Cpu) (v : UInt16) :
    (c.push v).drop = c.setMemory (c.memory.writeWord (c.reg .sp + 2) v) := by
  have hsp : (c.push v).reg .sp - 2 = c.reg .sp := by
    rw [sp_push, UInt16.add_sub_cancel]
  have hregs : (c.push v).drop.regs = c.regs := by
    rw [drop, hsp]
    change (c.regs.set 0 _).set 0 (c.regs[0]) = c.regs
    simp
  exact congrArg (fun regs => { c.push v with regs }) hregs

theorem slot_zero (c : Cpu) : c.slot 0 = c.reg .sp := by
  simp [slot]

theorem slot_succ (c : Cpu) (i : Nat) : c.slot (i + 1) = c.drop.slot i := by
  rw [slot, slot, sp_drop]
  apply UInt16.toNat_inj.1
  simp only [UInt16.toNat_sub, UInt16.toNat_ofNat', UInt16.reduceToNat]
  have := (c.reg .sp).toNat_lt
  omega

/-- A word that is pushed goes to other bytes than the words below it, as long as these are not all
of memory. -/
theorem slot_ne {c : Cpu} {i : Nat} (h : i < 32767) :
    c.slot i ≠ c.reg .sp + 2 ∧ c.slot i ≠ c.reg .sp + 2 + 1 ∧
      c.slot i + 1 ≠ c.reg .sp + 2 ∧ c.slot i + 1 ≠ c.reg .sp + 2 + 1 := by
  have := (c.reg .sp).toNat_lt
  refine ⟨?_, ?_, ?_, ?_⟩ <;>
  · intro he
    have := congrArg UInt16.toNat he
    simp only [slot, UInt16.toNat_sub, UInt16.toNat_add, UInt16.toNat_ofNat',
      UInt16.reduceToNat] at this
    omega

theorem readWord_slot (c : Cpu) (v : UInt16) {i : Nat} (h : i < 32767) :
    (c.memory.writeWord (c.reg .sp + 2) v).readWord (c.slot i) = c.memory.readWord (c.slot i) := by
  obtain ⟨h1, h2, h3, h4⟩ := slot_ne (c := c) h
  simp only [Memory.readWord, Memory.read_writeWord, if_neg h1, if_neg h2, if_neg h3, if_neg h4]

/-! ## Rows of words -/

/-- Pops read the words on the stack and nothing else. -/
theorem popMany_setMemory {n : Nat} {c : Cpu} {memory : Memory}
    (h : ∀ i < n, memory.readWord (c.slot i) = c.memory.readWord (c.slot i)) :
    popMany n (c.setMemory memory) = ((popMany n c).1, (popMany n c).2.setMemory memory) := by
  induction n generalizing c with
  | zero => rfl
  | succ n ih =>
    have htop : (c.setMemory memory).top = c.top := by
      have := h 0 (by omega)
      rwa [slot_zero] at this
    have hrest := ih (c := c.drop) fun i hi => by
      have := h (i + 1) (by omega)
      rwa [slot_succ] at this
    rw [popMany, htop, show (c.setMemory memory).drop = c.drop.setMemory memory from rfl, hrest]
    rfl

/-- The bytes that a row of pushes does not write. -/
theorem read_pushAll {c : Cpu} {vs : List UInt16} {x : UInt16}
    (h : ∀ j < 2 * vs.length, x.toNat ≠ ((c.reg .sp).toNat + 2 + j) % memorySize) :
    (c.pushAll vs).memory.read x = c.memory.read x := by
  induction vs generalizing c with
  | nil => rfl
  | cons v vs ih =>
    simp only [List.length_cons, memorySize] at h
    have hrest : ((c.push v).pushAll vs).memory.read x = (c.push v).memory.read x := by
      apply ih
      intro j hj
      have := h (j + 2) (by omega)
      rw [sp_push]
      simp only [UInt16.toNat_add, UInt16.reduceToNat, memorySize]
      omega
    have hhi : x ≠ c.reg .sp + 2 := by
      rintro rfl
      apply h 0 (by omega)
      simp only [UInt16.toNat_add, UInt16.reduceToNat]
    have hlo : x ≠ c.reg .sp + 2 + 1 := by
      rintro rfl
      apply h 1 (by omega)
      simp only [UInt16.toNat_add, UInt16.reduceToNat]
      omega
    change ((c.push v).pushAll vs).memory.read x = c.memory.read x
    rw [hrest]
    change (c.memory.writeWord (c.reg .sp + 2) v).read x = c.memory.read x
    rw [Memory.read_writeWord, if_neg hlo, if_neg hhi]

theorem popMany_pushAll (c : Cpu) {vs : List UInt16} (h : vs.length ≤ 32768) :
    popMany vs.length (c.pushAll vs) = (vs.reverse, c.setMemory (c.pushAll vs).memory) := by
  -- the last word pushed is the first one popped, so the list is taken apart from its end
  induction vs using List.reverseRecOn with
  | nil => rfl
  | append_singleton vs v ih =>
    simp only [List.length_append, List.length_singleton] at h
    rw [pushAll_concat, List.length_append, List.length_singleton, popMany, top_push, drop_push]
    rw [popMany_setMemory fun i hi => readWord_slot _ v (by omega), ih (by omega)]
    rw [List.reverse_append]
    rfl

end Cpu

/-- Up to 32768 words that are pushed and popped again come back in the opposite order, and the
processor is as before but for its memory, which differs in no other bytes than those from two above
the stack pointer on, two for each word. -/
theorem stack_is_lifo (c : Cpu) {vs : List UInt16} (h : vs.length ≤ 32768) :
    ∃ memory, (c.pushAll vs).popMany vs.length = (vs.reverse, c.setMemory memory) ∧
      ∀ x : UInt16, (∀ j < 2 * vs.length, x.toNat ≠ ((c.reg .sp).toNat + 2 + j) % memorySize) →
        memory.read x = c.memory.read x :=
  ⟨_, Cpu.popMany_pushAll c h, fun _ hx => Cpu.read_pushAll hx⟩

/-- As many words as memory holds, from an odd stack pointer on: the last of them goes to where the
pointer stood. -/
theorem stack_is_lifo_of_full_memory :
    (List.replicate 32767 0xFFFF ++ [(0x1234 : UInt16)]).length ≤ 32768 ∧
      ∃ (c : Cpu) (memory : Memory), c.reg .sp = 0xFFFD ∧
        (c.pushAll (List.replicate 32767 0xFFFF ++ [0x1234])).popMany 32768 =
          (0x1234 :: List.replicate 32767 0xFFFF, c.setMemory memory) := by
  have hlength : (List.replicate 32767 0xFFFF ++ [(0x1234 : UInt16)]).length = 32768 := by
    rw [List.length_append, List.length_replicate, List.length_singleton]
  have hreverse : (List.replicate 32767 0xFFFF ++ [(0x1234 : UInt16)]).reverse =
      0x1234 :: List.replicate 32767 0xFFFF := by
    rw [List.reverse_append, List.reverse_replicate]
    rfl
  obtain ⟨memory, hpop, -⟩ :=
    stack_is_lifo ((Cpu.start ⟨.replicate _ 0⟩ 0).setReg .sp 0xFFFD) (Nat.le_of_eq hlength)
  rw [hlength, hreverse] at hpop
  exact ⟨Nat.le_of_eq hlength, _, memory, rfl, hpop⟩

end Console16
