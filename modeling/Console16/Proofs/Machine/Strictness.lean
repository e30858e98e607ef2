import Console16.Proofs.Machine.Stepwise

/-!
# Console16.Proofs.Machine.Strictness

What the strict feature does to a run. A strict machine runs as the permissive one up to the first
unknown opcode; there it stops with a fault, and nothing of that instruction is left behind but the
halt flag.

* `Machine.execute_withFeatures`: no known instruction looks at the features.
* `Machine.run_of_known`: without unknown opcodes the two runs are the same.
* `strict_run_is_cut`: the strict run is the permissive run cut at its first unknown opcode.
-/

namespace Console16
namespace Machine

variable {S K C : Type}

def withFeatures (m : Machine S K C) (features : Features) : Machine S K C :=
  { m with config := { m.config with features } }

/-- The machine with the default features. -/
def permissive (m : Machine S K C) : Machine S K C :=
  m.withFeatures .none

def strict (m : Machine S K C) : Machine S K C :=
  m.withFeatures ⟨true⟩

/-- The next opcode is one of the table. -/
def Known (m : Machine S K C) : Prop :=
  ∀ b, m.current ≠ .unknown b

theorem exists_unknown {m : Machine S K C} (h : ¬m.Known) : ∃ b, m.current = .unknown b := by
  unfold Known at h
  push Not at h
  exact h

variable [Screen S] [Keypad K] [Clock C]

theorem execute_withFeatures (m : Machine S K C) (features : Features) {i : Instr}
    (hi : ∀ b, i ≠ .unknown b) :
    ∃ k, m.execute i = .next k ∧
      (m.withFeatures features).execute i = .next (k.withFeatures features) :=
  ⟨m.complete i, execute_of_known hi, execute_of_known hi⟩

theorem step_of_known {m : Machine S K C} (h : m.Known) :
    ∃ k, m.step = .next k ∧ m.strict.step = .next k.strict :=
  execute_withFeatures m ⟨true⟩ h

theorem step_of_unknown {m : Machine S K C} {b : UInt8} (h : m.current = .unknown b) :
    m.strict.step = .fault ⟨b, m.cpu.ip⟩ m.strict.halt := by
  have hcur : m.strict.current = .unknown b := h
  rw [step, hcur]
  rfl

/-- A permissive machine executes every opcode, the unknown ones too. -/
theorem step_permissive {m : Machine S K C} (h : m.config.features.strict = false) :
    ∃ k, m.step = .next k := by
  by_cases hknown : m.Known
  · obtain ⟨k, hk, -⟩ := step_of_known hknown
    exact ⟨k, hk⟩
  · obtain ⟨b, hb⟩ := exists_unknown hknown
    refine ⟨{ m with cpu := m.cpu.advance }, ?_⟩
    simp only [step, hb, execute, h, Bool.false_eq_true, if_false]

theorem run_permissive {m : Machine S K C} (h : m.config.features.strict = false) (n : Nat) :
    ∃ q, m.run n = .next q := by
  induction n generalizing m with
  | zero => exact ⟨m, rfl⟩
  | succ n ih =>
    obtain ⟨k, hk⟩ := step_permissive h
    obtain ⟨q, hq⟩ := ih ((kept_of_execute hk).1 ▸ h)
    exact ⟨q, by rw [run, hk]; exact hq⟩

theorem run_of_known {m : Machine S K C} {n : Nat} (h : m.Throughout Known n) :
    ∃ q, m.run n = .next q ∧ m.strict.run n = .next q.strict := by
  induction n generalizing m with
  | zero => exact ⟨m, rfl, rfl⟩
  | succ n ih =>
    obtain ⟨k, hk, hstrict⟩ := step_of_known h.now
    obtain ⟨q, hq, hq'⟩ := ih (h.later hk)
    refine ⟨q, ?_, ?_⟩
    · rw [run, hk]
      exact hq
    · rw [run, hstrict]
      exact hq'

end Machine

/-- A strict run is the permissive run, cut at its first unknown opcode if it has one: the fault
names that opcode and its address, and leaves the machine as the permissive one was before it. -/
theorem strict_run_is_cut {S K C : Type} [Screen S] [Keypad K] [Clock C] (m : Machine S K C)
    (n : Nat) :
    ∃ q, m.permissive.run n = .next q ∧
      (m.permissive.Throughout Machine.Known n ∧ m.strict.run n = .next q.strict ∨
        ∃ j < n, ∃ p b, m.permissive.Throughout Machine.Known j ∧
          m.permissive.run j = .next p ∧ p.current = .unknown b ∧
          m.strict.run n = .fault ⟨b, p.cpu.ip⟩ p.strict.halt) := by
  obtain ⟨q, hq⟩ := Machine.run_permissive (m := m.permissive) rfl n
  refine ⟨q, hq, ?_⟩
  rcases Machine.throughout_or_first Machine.Known m.permissive n with h | ⟨j, hj, p, h, hp, hnot⟩
  · obtain ⟨q', hq', hstrict⟩ := Machine.run_of_known h
    rw [hq] at hq'
    cases hq'
    exact .inl ⟨h, hstrict⟩
  · obtain ⟨p', hp', hstrict⟩ := Machine.run_of_known h
    rw [hp] at hp'
    cases hp'
    obtain ⟨b, hb⟩ := Machine.exists_unknown hnot
    refine .inr ⟨j, hj, p, b, h, hp, hb, ?_⟩
    have hfault : p.strict.step = .fault ⟨b, p.cpu.ip⟩ p.strict.halt := Machine.step_of_unknown hb
    obtain ⟨k, rfl⟩ := Nat.exists_eq_add_of_lt hj
    rw [Nat.add_assoc, Machine.run_add, show m.strict.run j = .next p.strict from hstrict]
    exact Machine.run_fault k hfault

end Console16
