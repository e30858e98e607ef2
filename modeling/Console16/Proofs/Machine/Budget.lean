import Console16.Proofs.Machine.Frame
import Console16.Proofs.Machine.Strictness
import Mathlib.Algebra.Order.Floor.Div

/-!
# Console16.Proofs.Machine.Budget

How long a batch is. Nothing counts the intervals of a batch: it ends because readings move the
clock. With a clock that goes on by `t` milliseconds at every reading, and one reading after every
interval, a budget of `B` milliseconds is spent after `B / t` intervals, rounded up, and not before
the first one. Instructions that read the clock themselves can only make the batch shorter.

* `Machine.batchLoop_mono`: a batch that has ended gives the same answer with more intervals to try.
* `Machine.clock_of_run`: the clock after a run, by the readings of its instructions.
* `Machine.batchLoop_yields`: the intervals left, by induction on the distance to the deadline.
* `batch_spends_budget`: the length of a batch.
-/

namespace Console16

/-- The clock after `n` readings. -/
def Clock.skip {C : Type} [Clock C] : Nat → C → C
  | 0, c => c
  | n + 1, c => skip n (Clock.read c).2

/-- The readings that a row of instructions takes. -/
def readings (is : List Instr) : Nat :=
  is.countP Instr.readsClock

theorem readings_eq_zero {is : List Instr} (h : Timeless is) : readings is = 0 := by
  rw [readings, List.countP_eq_zero]
  intro i hi
  simp [h i hi]

/-- A reading moves a clock on by its tick, as long as it does not go around. -/
theorem ManualClock.toNat_read {c : ManualClock} (h : c.now.toNat + c.tick.toNat < 2 ^ 64) :
    (Clock.read c).2.now.toNat = c.now.toNat + c.tick.toNat := by
  change (c.now + c.tick).toNat = c.now.toNat + c.tick.toNat
  rw [UInt64.toNat_add]
  exact Nat.mod_eq_of_lt h

theorem ManualClock.toNat_skip {c : ManualClock} {n : Nat}
    (h : c.now.toNat + n * c.tick.toNat < 2 ^ 64) :
    (Clock.skip n c).tick = c.tick ∧
      (Clock.skip n c).now.toNat = c.now.toNat + n * c.tick.toNat := by
  induction n generalizing c with
  | zero => simp [Clock.skip]
  | succ n ih =>
    rw [Nat.add_mul, Nat.one_mul] at h
    have hnow := toNat_read (c := c) (by omega)
    have htick : (Clock.read c).2.tick = c.tick := rfl
    obtain ⟨hsame, hlater⟩ := ih (c := (Clock.read c).2) (by rw [hnow, htick]; omega)
    refine ⟨hsame, ?_⟩
    rw [Clock.skip, hlater, hnow, htick, Nat.add_mul]
    omega

theorem toNat_saturatingAdd {a b : UInt64} (h : a.toNat + b.toNat < 2 ^ 64) :
    (saturatingAdd a b).toNat = a.toNat + b.toNat := by
  have hfits : a.toNat + b.toNat < UInt64.size := h
  rw [saturatingAdd, if_pos hfits, UInt64.toNat_add]
  exact Nat.mod_eq_of_lt h

namespace Machine

/-! ## More intervals than needed -/

section
variable {S K C : Type} [Screen S] [Keypad K] [Clock C] {m : Machine S K C}

theorem batchLoop_mono {deadline : UInt64} {start fuel fuel' : Nat}
    (h : ∀ p, batchLoop deadline start fuel m ≠ .unfinished p) (hle : fuel ≤ fuel') :
    batchLoop deadline start fuel' m = batchLoop deadline start fuel m ∧
      batchLoopTrace deadline fuel' m = batchLoopTrace deadline fuel m := by
  induction fuel generalizing m fuel' with
  | zero => exact absurd rfl (h m)
  | succ fuel ih =>
    obtain ⟨more, rfl⟩ := Nat.exists_eq_add_of_le' hle
    rw [← Nat.add_assoc]
    simp only [batchLoop, batchLoopTrace] at h ⊢
    cases hrun : m.run m.config.intervalCycles with
    | fault f k => exact ⟨rfl, rfl⟩
    | next k =>
      simp only [hrun] at h
      by_cases hlate : deadline ≤ k.readClock.1
      · simp [hlate]
      · simp only [if_neg hlate] at h ⊢
        obtain ⟨hsame, htrace⟩ := ih h (Nat.le_add_left fuel more)
        exact ⟨hsame, by rw [htrace]⟩

theorem batch_mono {fuel fuel' : Nat} (h : ∀ p, m.batch fuel ≠ .unfinished p)
    (hle : fuel ≤ fuel') :
    m.batch fuel' = m.batch fuel ∧ m.batchTrace fuel' = m.batchTrace fuel := by
  unfold batch batchTrace at *
  split
  · exact ⟨rfl, rfl⟩
  · rename_i hrunning
    rw [if_neg hrunning] at h
    exact batchLoop_mono h hle

theorem clock_of_run {k : Machine S K C} {n : Nat} (h : m.run n = .next k) :
    k.clock = Clock.skip (readings (m.trace n)) m.clock := by
  induction n generalizing m with
  | zero =>
    cases h
    rfl
  | succ n ih =>
    simp only [run] at h
    rw [trace]
    cases hstep : m.step with
    | fault f p =>
      rw [hstep] at h
      cases h
    | next p =>
      rw [hstep] at h
      obtain rfl := of_step_next hstep
      have hclock := (changes_complete m m.current).clock
      rw [ih h, hclock, readings, readings, List.countP_cons]
      cases m.current.readsClock with
      | false => rfl
      | true => rfl

end

/-! ## The distance to the deadline -/

section
variable {S K : Type} [Screen S] [Keypad K] {m : Machine S K ManualClock}

/-- One interval of a permissive machine, and the clock after it. -/
theorem exists_interval (hpermissive : m.config.features.strict = false)
    (hroom : m.clock.now.toNat + (m.config.intervalCycles + 1) * m.clock.tick.toNat < 2 ^ 64) :
    ∃ k r, m.run m.config.intervalCycles = .next k ∧ k.config = m.config ∧
      (m.trace m.config.intervalCycles).length = m.config.intervalCycles ∧
      r ≤ m.config.intervalCycles ∧ (Timeless (m.trace m.config.intervalCycles) → r = 0) ∧
      k.clock.tick = m.clock.tick ∧
      k.clock.now.toNat = m.clock.now.toNat + r * m.clock.tick.toNat := by
  obtain ⟨k, hrun⟩ := run_permissive hpermissive m.config.intervalCycles
  obtain ⟨hpaced, hlength⟩ := paced_of_run hrun
  have hreadings : readings (m.trace m.config.intervalCycles) ≤ m.config.intervalCycles := by
    have := List.countP_le_length (p := Instr.readsClock) (l := m.trace m.config.intervalCycles)
    rwa [hlength] at this
  have hmoved := Nat.mul_le_mul_right m.clock.tick.toNat hreadings
  rw [Nat.add_mul] at hroom
  obtain ⟨htick, hnow⟩ := ManualClock.toNat_skip (c := m.clock)
    (n := readings (m.trace m.config.intervalCycles)) (by omega)
  rw [← clock_of_run hrun] at htick hnow
  exact ⟨k, _, hrun, hpaced.kept.1, hlength, hreadings, readings_eq_zero, htick, hnow⟩

/-- From a clock that reaches the deadline with `n` more ticks there are `n + 1` intervals at most,
and exactly as many if none of the instructions reads the clock and `n` is the least such number. -/
theorem batchLoop_yields (deadline : UInt64) (start : Nat) {n : Nat}
    (hpermissive : m.config.features.strict = false)
    (hreach : deadline.toNat ≤ m.clock.now.toNat + n * m.clock.tick.toNat)
    (hroom : m.clock.now.toNat + (m.config.intervalCycles + 1) * m.clock.tick.toNat < 2 ^ 64)
    (hlast : deadline.toNat + (m.config.intervalCycles + 2) * m.clock.tick.toNat < 2 ^ 64) :
    (∃ c k, batchLoop deadline start (n + 1) m = .yielded c k) ∧
      (batchLoopTrace deadline (n + 1) m).length ≤ m.config.intervalCycles * (n + 1) ∧
      (Timeless (batchLoopTrace deadline (n + 1) m) →
        (∀ j < n, m.clock.now.toNat + j * m.clock.tick.toNat < deadline.toNat) →
        (batchLoopTrace deadline (n + 1) m).length = m.config.intervalCycles * (n + 1)) := by
  induction n generalizing m with
  | zero =>
    obtain ⟨k, r, hrun, hconfig, hlength, hr, hzero, htick, hnow⟩ :=
      exists_interval hpermissive hroom
    have hlate : deadline ≤ k.readClock.1 := by
      rw [UInt64.le_iff_toNat_le]
      change deadline.toNat ≤ k.clock.now.toNat
      omega
    simp only [batchLoop, batchLoopTrace, hrun, if_pos hlate, List.append_nil, hlength]
    refine ⟨⟨_, _, rfl⟩, by omega, fun _ _ => by omega⟩
  | succ n ih =>
    obtain ⟨k, r, hrun, hconfig, hlength, hr, hzero, htick, hnow⟩ :=
      exists_interval hpermissive hroom
    rw [batchLoop, batchLoopTrace]
    simp only [hrun]
    by_cases hlate : deadline ≤ k.readClock.1
    · simp only [if_pos hlate, List.append_nil, hlength]
      refine ⟨⟨_, _, rfl⟩, Nat.le_mul_of_pos_right _ (Nat.succ_pos _), fun ht hbefore => ?_⟩
      -- no instruction has moved the clock, so it is not that late
      have hearly := hbefore 0 (Nat.succ_pos n)
      rw [hzero ht] at hnow
      change deadline.toNat ≤ k.clock.now.toNat at hlate
      omega
    · have hearly : k.clock.now.toNat < deadline.toNat := Nat.lt_of_not_le hlate
      rw [Nat.add_mul] at hreach
      have hconfig' : k.readClock.2.config = m.config := hconfig
      have htick' : k.readClock.2.clock.tick = m.clock.tick := htick
      have hnow' : k.readClock.2.clock.now.toNat = k.clock.now.toNat + m.clock.tick.toNat := by
        rw [← htick]
        refine ManualClock.toNat_read ?_
        rw [Nat.add_mul] at hlast
        rw [htick]
        omega
      obtain ⟨hyield, hmost, hexact⟩ := ih (m := k.readClock.2)
        (by rw [hconfig', hpermissive])
        (by rw [hnow', htick']; omega)
        (by rw [hconfig', hnow', htick']; rw [Nat.add_mul] at hlast ⊢; omega)
        (by rwa [hconfig', htick'])
      rw [hconfig'] at hmost hexact
      simp only [if_neg hlate, List.length_append, hlength]
      rw [Nat.mul_add_one m.config.intervalCycles (n + 1)]
      refine ⟨hyield, by omega, fun ht hbefore => ?_⟩
      obtain ⟨ht, hrest⟩ := timeless_append.1 ht
      rw [hexact hrest, Nat.add_comm]
      intro j hj
      have := hbefore (j + 1) (by omega)
      rw [Nat.add_mul] at this
      rw [hzero ht] at hnow
      rw [hnow', htick']
      omega

/-- The same for a whole batch: its first reading sets the deadline and moves the clock. -/
theorem batch_yields {n : Nat} (hrunning : m.halted = false)
    (hpermissive : m.config.features.strict = false)
    (hreach : m.config.budget.toNat ≤ m.clock.tick.toNat * (n + 1))
    (hroom : m.clock.now.toNat + m.config.budget.toNat +
      (m.config.intervalCycles + 2) * m.clock.tick.toNat < 2 ^ 64) :
    (∃ c k, m.batch (n + 1) = .yielded c k) ∧
      (m.batchTrace (n + 1)).length ≤ m.config.intervalCycles * (n + 1) ∧
      (Timeless (m.batchTrace (n + 1)) →
        (∀ j < n, m.clock.tick.toNat * (j + 1) < m.config.budget.toNat) →
        (m.batchTrace (n + 1)).length = m.config.intervalCycles * (n + 1)) := by
  have hroom' := hroom
  rw [Nat.add_mul] at hroom'
  have hdeadline : (saturatingAdd m.clock.now m.config.budget).toNat =
      m.clock.now.toNat + m.config.budget.toNat := toNat_saturatingAdd (by omega)
  have hnow : m.readClock.2.clock.now.toNat = m.clock.now.toNat + m.clock.tick.toNat :=
    ManualClock.toNat_read (by omega)
  have htick : m.readClock.2.clock.tick = m.clock.tick := rfl
  have hconfig : m.readClock.2.config = m.config := rfl
  have hloop := batchLoop_yields (saturatingAdd m.clock.now m.config.budget) m.cpu.cycles
    (m := m.readClock.2) (n := n) hpermissive
    (by rw [hdeadline, hnow, htick]; rw [Nat.mul_add_one, Nat.mul_comm] at hreach; omega)
    (by rw [hnow, htick, hconfig, Nat.add_mul]; omega)
    (by rwa [hdeadline, htick, hconfig])
  rw [hnow, htick, hconfig, hdeadline] at hloop
  simp only [batch, batchTrace, hrunning, Bool.false_eq_true, if_false]
  obtain ⟨hyield, hmost, hexact⟩ := hloop
  refine ⟨hyield, hmost, fun ht hbefore => hexact ht ?_⟩
  intro j hj
  have := hbefore j hj
  rw [Nat.mul_add_one, Nat.mul_comm] at this
  omega

end
end Machine

/-- A batch of a permissive machine with a clock that goes on by itself ends, after one interval at
least and after as many as the budget has ticks, rounded up, at most. These are exactly as many if
no instruction reads the clock. -/
theorem batch_spends_budget {S K : Type} [Screen S] [Keypad K] {m : Machine S K ManualClock}
    (hrunning : m.halted = false) (hpermissive : m.config.features.strict = false)
    (htick : 1 ≤ m.clock.tick.toNat)
    (hroom : m.clock.now.toNat + m.config.budget.toNat +
      (max m.config.interval 1 + 2) * m.clock.tick.toNat < 2 ^ 64) :
    ∃ c k,
      (∀ fuel, max 1 (m.config.budget.toNat ⌈/⌉ m.clock.tick.toNat) ≤ fuel →
        m.batch fuel = .yielded c k ∧
        (Timeless (m.batchTrace fuel) →
          c = max m.config.interval 1 *
            max 1 (m.config.budget.toNat ⌈/⌉ m.clock.tick.toNat))) ∧
      max m.config.interval 1 ≤ c ∧
      c ≤ max m.config.interval 1 * max 1 (m.config.budget.toNat ⌈/⌉ m.clock.tick.toNat) ∧
      k.cpu.cycles = m.cpu.cycles + c := by
  obtain ⟨n, hn⟩ := Nat.exists_eq_add_of_le'
    (le_max_left 1 (m.config.budget.toNat ⌈/⌉ m.clock.tick.toNat))
  have hreach : m.config.budget.toNat ≤ m.clock.tick.toNat * (n + 1) := by
    rw [← ceilDiv_le_iff_le_mul htick, ← hn]
    exact le_max_right ..
  have hleast : ∀ j < n, m.clock.tick.toNat * (j + 1) < m.config.budget.toNat := by
    intro j hj
    by_contra hge
    have := (ceilDiv_le_iff_le_mul htick).2 (Nat.le_of_not_lt hge)
    omega
  obtain ⟨⟨c, k, hyield⟩, hmost, hexact⟩ :=
    Machine.batch_yields hrunning hpermissive hreach hroom
  obtain ⟨hpaced, rfl, hpos, hdvd⟩ := Machine.paced_of_yielded hyield
  rw [hn]
  refine ⟨_, k, fun fuel hfuel => ?_, Nat.le_of_dvd hpos hdvd, hmost, hpaced.kept.2⟩
  obtain ⟨hsame, htrace⟩ :=
    Machine.batch_mono (fun p hp => by rw [hyield] at hp; cases hp) hfuel
  rw [hsame, htrace]
  exact ⟨hyield, fun ht => hexact ht hleast⟩

/-- A loop of `ADD A B` and `JMPI 0x0`, a clock that goes on by two and a budget of three: two
intervals, of one instruction each although none is asked for. -/
theorem exists_rounded_batch :
    ∃ m : Machine PixelLog KeyState ManualClock,
      Machine.boot [0x0a, 2, 3, 0, 0x31, 0, 0, 0] PixelLog.empty (KeyState.released .empty)
          (⟨0, 2⟩ : ManualClock) (.ofSeed 7) ⟨3, 0, .none⟩ = .ok m ∧
        m.halted = false ∧ m.config = ⟨3, 0, .none⟩ ∧ m.clock = ⟨2, 2⟩ ∧
        m.batchTrace 2 = [.alu .add 2 3, .jmpImm 0] :=
  ⟨_, rfl, rfl, rfl, rfl, rfl⟩

theorem batch_spends_budget_of_rounded :
    ∃ m k : Machine PixelLog KeyState ManualClock, m.halted = false ∧
      m.config = ⟨3, 0, .none⟩ ∧ m.clock = ⟨2, 2⟩ ∧ Timeless (m.batchTrace 2) ∧
      m.batch 2 = .yielded 2 k ∧ k.cpu.cycles = m.cpu.cycles + 2 := by
  obtain ⟨m, -, hrunning, hconfig, hclock, htrace⟩ := exists_rounded_batch
  have htimeless : Timeless (m.batchTrace 2) := by
    rw [htrace]
    unfold Timeless
    decide
  obtain ⟨c, k, hall, -, -, hcycles⟩ := batch_spends_budget hrunning (by rw [hconfig]; rfl)
    (by rw [hclock]; decide) (by rw [hconfig, hclock]; decide)
  obtain ⟨hyield, hexact⟩ := hall 2 (by rw [hconfig, hclock]; decide)
  obtain rfl : c = 2 := by
    rw [hexact htimeless, hconfig, hclock]
    decide
  exact ⟨m, k, hrunning, hconfig, hclock, htimeless, hyield, hcycles⟩

end Console16
