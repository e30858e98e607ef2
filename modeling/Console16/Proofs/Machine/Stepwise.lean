import Console16.Proofs.Machine.Components
import Mathlib.Order.Nat

/-!
# Console16.Proofs.Machine.Stepwise

Runs instruction by instruction. A condition holds throughout a run when it holds before each of its
instructions; either it does, or there is a first instruction before which it does not.

* `Machine.kept_of_execute`: what no instruction changes, and the instruction count.
* `Machine.step_eq_fault_iff`: when an instruction faults, and what the fault leaves behind.
* `Machine.throughout_or_first`: a condition holds throughout a run or fails for a first time.
-/

namespace Console16
namespace Machine

variable {S K C : Type} [Screen S] [Keypad K] [Clock C]

theorem kept_of_execute {m k : Machine S K C} {i : Instr} (h : m.execute i = .next k) :
    k.config = m.config ∧ k.halted = m.halted ∧ k.cpu.cycles = m.cpu.cycles + 1 := by
  obtain rfl := of_execute_next h
  exact ⟨rfl, rfl, congrArg Nat.succ (cycles_work m i)⟩

/-- A fault comes from an unknown opcode in a strict machine, and changes nothing but the halt
flag. -/
theorem step_eq_fault_iff {m k : Machine S K C} {f : Fault} :
    m.step = .fault f k ↔
      m.config.features.strict = true ∧ m.current = .unknown f.opcode ∧ f.addr = m.cpu.ip ∧
        k = m.halt := by
  constructor
  · intro h
    rcases execute_eq m m.current with ⟨b, hcur, hstrict, he⟩ | he
    · rw [step, he] at h
      cases h
      exact ⟨hstrict, hcur, rfl, rfl⟩
    · rw [step, he] at h
      cases h
  · rintro ⟨hstrict, hcur, haddr, rfl⟩
    rw [step, hcur, execute, if_pos hstrict, ← haddr]

theorem of_step_fault {m k : Machine S K C} {f : Fault} (h : m.step = .fault f k) :
    ∃ b, m.current = .unknown b ∧ f = ⟨b, m.cpu.ip⟩ ∧ k = m.halt := by
  obtain ⟨-, hcur, haddr, hk⟩ := step_eq_fault_iff.1 h
  exact ⟨f.opcode, hcur, by rw [← haddr], hk⟩

theorem run_succ_last {m k k' : Machine S K C} {n : Nat} (h : m.run n = .next k)
    (hstep : k.step = .next k') : m.run (n + 1) = .next k' := by
  rw [run_add, h]
  simp only [run, hstep]

/-- A condition holds before each of the first `n` instructions. -/
def Throughout (P : Machine S K C → Prop) (n : Nat) (m : Machine S K C) : Prop :=
  ∀ j < n, ∀ p, m.run j = .next p → P p

variable {P : Machine S K C → Prop} {m k : Machine S K C} {n : Nat}

theorem Throughout.now (h : m.Throughout P (n + 1)) : P m :=
  h 0 (Nat.succ_pos n) m rfl

theorem Throughout.later (h : m.Throughout P (n + 1)) (hstep : m.step = .next k) :
    k.Throughout P n := by
  intro j hj p hp
  refine h (j + 1) (Nat.succ_lt_succ hj) p ?_
  rw [run, hstep]
  exact hp

theorem throughout_or_first (P : Machine S K C → Prop) (m : Machine S K C) (n : Nat) :
    m.Throughout P n ∨ ∃ j < n, ∃ p, m.Throughout P j ∧ m.run j = .next p ∧ ¬P p := by
  induction n with
  | zero => exact .inl fun j hj => absurd hj (Nat.not_lt_zero j)
  | succ n ih =>
    rcases ih with h | ⟨j, hj, hfirst⟩
    · by_cases hn : ∀ p, m.run n = .next p → P p
      · refine .inl fun j hj => ?_
        rcases Nat.lt_succ_iff_lt_or_eq.1 hj with hj | rfl
        · exact h j hj
        · exact hn
      · push Not at hn
        obtain ⟨p, hp, hnot⟩ := hn
        exact .inr ⟨n, Nat.lt_succ_self n, p, h, hp, hnot⟩
    · exact .inr ⟨j, Nat.lt_succ_of_lt hj, hfirst⟩

end Machine
end Console16
