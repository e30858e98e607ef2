import Console16.Machine.Batch
import Console16.Proofs.Machine.Stepwise
import Mathlib.Algebra.Order.Ring.Nat

/-!
# Console16.Proofs.Machine.Pacing

Batches are only cycles. A batch executes whole intervals of instructions and looks at the clock
between them; how many intervals it is depends on the clock and the budget. As long as no
instruction reads the clock itself, none of that can be told from what the program does: a batch, or
a row of batches, does what one run of as many instructions does.

* `Machine.paced_of_yielded`, `Machine.paced_of_fault`: a batch as instructions and looks at the
  clock.
* `Machine.step_alike`: an instruction that does not read the clock does not depend on it.
* `Machine.Paced.run`: looks at the clock make no difference to a run.
* `batches_are_runs`: batches that yield, batches that fail, and rows of batches.
-/

namespace Console16

/-- The instructions that read the clock. -/
def Instr.readsClock : Instr → Bool
  | .time _ | .timerRst => true
  | _ => false

/-- None of these instructions reads the clock. -/
def Timeless (is : List Instr) : Prop :=
  ∀ i ∈ is, i.readsClock = false

theorem timeless_append {is js : List Instr} :
    Timeless (is ++ js) ↔ Timeless is ∧ Timeless js :=
  List.forall_mem_append

namespace Machine

variable {S K C : Type}

/-- Two machines that differ in nothing but the clock, the budget and the interval. -/
structure Alike (a b : Machine S K C) : Prop where
  cpu : b.cpu = a.cpu
  screen : b.screen = a.screen
  keypad : b.keypad = a.keypad
  random : b.random = a.random
  halted : b.halted = a.halted
  features : b.config.features = a.config.features

namespace Alike

variable {a b c : Machine S K C}

theorem refl (a : Machine S K C) : Alike a a := ⟨rfl, rfl, rfl, rfl, rfl, rfl⟩

theorem trans (h : Alike a b) (h' : Alike b c) : Alike a c where
  cpu := h'.cpu.trans h.cpu
  screen := h'.screen.trans h.screen
  keypad := h'.keypad.trans h.keypad
  random := h'.random.trans h.random
  halted := h'.halted.trans h.halted
  features := h'.features.trans h.features

theorem current (h : Alike a b) : b.current = a.current := by
  rw [Machine.current, h.cpu, Machine.current]

end Alike

theorem alike_readClock [Clock C] (m : Machine S K C) : Alike m m.readClock.2 :=
  ⟨rfl, rfl, rfl, rfl, rfl, rfl⟩

variable [Screen S] [Keypad K] [Clock C]

/-! ## What is executed -/

/-- The instructions of a run of `n`, without the one at which it stops for a fault. -/
def trace : Nat → Machine S K C → List Instr
  | 0, _ => []
  | n + 1, m =>
    match m.step with
    | .next k => m.current :: k.trace n
    | .fault _ _ => []

/-- The instructions of the intervals of a batch. -/
def batchLoopTrace (deadline : UInt64) : Nat → Machine S K C → List Instr
  | 0, _ => []
  | fuel + 1, m =>
    m.trace m.config.intervalCycles ++
      match m.run m.config.intervalCycles with
      | .fault _ _ => []
      | .next k =>
        let (now, k) := k.readClock
        if deadline ≤ now then [] else batchLoopTrace deadline fuel k

/-- The instructions of a batch, without the one at which it stops for a fault. -/
def batchTrace (fuel : Nat) (m : Machine S K C) : List Instr :=
  if m.halted then []
  else
    let (now, k) := m.readClock
    batchLoopTrace (saturatingAdd now k.config.budget) fuel k

/-- Instructions one after another, with looks at the clock between them. -/
inductive Paced (m : Machine S K C) : List Instr → Machine S K C → Prop where
  | start : Paced m [] m
  | step {is : List Instr} {k k' : Machine S K C} :
      Paced m is k → k.step = .next k' → Paced m (is ++ [k.current]) k'
  | look {is : List Instr} {k : Machine S K C} : Paced m is k → Paced m is k.readClock.2

section
variable {m k p : Machine S K C} {is js : List Instr} {f : Fault}

theorem Paced.trans (h : Paced m is k) (h' : Paced k js p) : Paced m (is ++ js) p := by
  induction h' with
  | start => simpa using h
  | step _ hstep ih =>
    rw [← List.append_assoc]
    exact ih.step hstep
  | look _ ih => exact ih.look

theorem Paced.kept (h : Paced m is k) :
    k.config = m.config ∧ k.cpu.cycles = m.cpu.cycles + is.length := by
  induction h with
  | start => exact ⟨rfl, rfl⟩
  | step _ hstep ih =>
    obtain ⟨hconfig, hcycles⟩ := ih
    obtain ⟨hconfig', -, hcycles'⟩ := kept_of_execute hstep
    refine ⟨hconfig'.trans hconfig, ?_⟩
    rw [hcycles', hcycles, List.length_append, List.length_singleton, Nat.add_assoc]
  | look _ ih => exact ih

theorem paced_of_run {n : Nat} (h : m.run n = .next k) :
    Paced m (m.trace n) k ∧ (m.trace n).length = n := by
  induction n generalizing m with
  | zero =>
    cases h
    exact ⟨.start, rfl⟩
  | succ n ih =>
    simp only [run] at h
    unfold trace
    cases hstep : m.step with
    | fault f p =>
      rw [hstep] at h
      cases h
    | next p =>
      rw [hstep] at h
      obtain ⟨hp, hlen⟩ := ih h
      exact ⟨(Paced.start.step hstep).trans hp, congrArg Nat.succ hlen⟩

theorem paced_of_run_fault {n : Nat} (h : m.run n = .fault f k) :
    ∃ p, Paced m (m.trace n) p ∧ p.step = .fault f k := by
  induction n generalizing m with
  | zero => cases h
  | succ n ih =>
    simp only [run] at h
    unfold trace
    cases hstep : m.step with
    | fault g p =>
      rw [hstep] at h
      cases h
      exact ⟨m, .start, hstep⟩
    | next p =>
      rw [hstep] at h
      obtain ⟨q, hq, hfault⟩ := ih h
      exact ⟨q, (Paced.start.step hstep).trans hq, hfault⟩

/-! ## Batches, instruction by instruction -/

theorem paced_of_loop_yielded {deadline : UInt64} {start fuel c : Nat}
    (h : batchLoop deadline start fuel m = .yielded c k) :
    Paced m (batchLoopTrace deadline fuel m) k ∧ c = k.cpu.cycles - start ∧
      0 < (batchLoopTrace deadline fuel m).length ∧
      m.config.intervalCycles ∣ (batchLoopTrace deadline fuel m).length := by
  induction fuel generalizing m with
  | zero => cases h
  | succ fuel ih =>
    simp only [batchLoop] at h
    unfold batchLoopTrace
    cases hrun : m.run m.config.intervalCycles with
    | fault f p =>
      rw [hrun] at h
      cases h
    | next p =>
      obtain ⟨hp, hlen⟩ := paced_of_run hrun
      have hpos : 0 < m.config.intervalCycles :=
        Nat.lt_of_lt_of_le Nat.zero_lt_one (le_max_right ..)
      simp only [hrun] at h
      simp only [List.length_append, hlen]
      split at h
      · rename_i hlate
        cases h
        rw [if_pos hlate]
        exact ⟨hp.look.trans .start, rfl, hpos, dvd_refl _⟩
      · rename_i hearly
        rw [if_neg hearly]
        obtain ⟨hrest, hc, -, hdvd⟩ := ih h
        have hconfig : p.readClock.2.config = m.config := hp.kept.1
        rw [hconfig] at hdvd
        exact ⟨hp.look.trans hrest, hc, Nat.add_pos_left hpos _, (Nat.dvd_add_right dvd_rfl).2 hdvd⟩

theorem paced_of_loop_fault {deadline : UInt64} {start fuel : Nat}
    (h : batchLoop deadline start fuel m = .fault f k) :
    ∃ p, Paced m (batchLoopTrace deadline fuel m) p ∧ p.step = .fault f k := by
  induction fuel generalizing m with
  | zero => cases h
  | succ fuel ih =>
    simp only [batchLoop] at h
    unfold batchLoopTrace
    cases hrun : m.run m.config.intervalCycles with
    | fault g p =>
      rw [hrun] at h
      cases h
      simpa using paced_of_run_fault hrun
    | next p =>
      obtain ⟨hp, -⟩ := paced_of_run hrun
      simp only [hrun] at h
      split at h
      · cases h
      · rename_i hearly
        obtain ⟨q, hq, hfault⟩ := ih h
        refine ⟨q, ?_, hfault⟩
        simp only [if_neg hearly]
        exact hp.look.trans hq

theorem paced_of_yielded {fuel c : Nat} (h : m.batch fuel = .yielded c k) :
    Paced m (m.batchTrace fuel) k ∧ c = (m.batchTrace fuel).length ∧ 0 < c ∧
      m.config.intervalCycles ∣ c := by
  unfold batch at h
  unfold batchTrace
  split at h
  · cases h
  · rename_i hrunning
    rw [if_neg hrunning]
    obtain ⟨hp, hc, hpos, hdvd⟩ := paced_of_loop_yielded h
    have hall : Paced m (batchLoopTrace _ fuel m.readClock.2) k := Paced.start.look.trans hp
    rw [hall.kept.2, Nat.add_sub_cancel_left] at hc
    subst hc
    exact ⟨hall, rfl, hpos, hdvd⟩

theorem paced_of_fault {fuel : Nat} (h : m.batch fuel = .fault f k) :
    ∃ p, Paced m (m.batchTrace fuel) p ∧ p.step = .fault f k := by
  unfold batch at h
  unfold batchTrace
  split at h
  · cases h
  · rename_i hrunning
    rw [if_neg hrunning]
    obtain ⟨p, hp, hfault⟩ := paced_of_loop_fault h
    exact ⟨p, Paced.start.look.trans hp, hfault⟩

end

/-! ## Looks at the clock make no difference -/

/-- Two outcomes are of one form and lead to machines alike; faults are the same. -/
inductive SameOutcome : Outcome (Machine S K C) → Outcome (Machine S K C) → Prop where
  | next {a b : Machine S K C} : Alike a b → SameOutcome (.next a) (.next b)
  | fault {f : Fault} {a b : Machine S K C} : Alike a b → SameOutcome (.fault f a) (.fault f b)

section
variable {a b m k : Machine S K C} {is : List Instr} {f : Fault}

theorem execute_alike (h : Alike a b) {i : Instr} (hi : i.readsClock = false) :
    SameOutcome (a.execute i) (b.execute i) := by
  obtain ⟨cpu, screen, keypad, clock, random, config, halted⟩ := a
  obtain ⟨cpu', screen', keypad', clock', random', config', halted'⟩ := b
  obtain ⟨rfl, rfl, rfl, rfl, rfl, hfeatures⟩ := h
  cases i with
  | time dest => cases hi
  | timerRst => cases hi
  | alu op dest src =>
    simp only [execute]
    split
    · exact .next ⟨rfl, rfl, rfl, rfl, rfl, hfeatures⟩
    · exact .next ⟨rfl, rfl, rfl, rfl, rfl, hfeatures⟩
  | unknown code =>
    simp only at hfeatures
    simp only [execute, hfeatures]
    split
    · exact .fault ⟨rfl, rfl, rfl, rfl, rfl, hfeatures⟩
    · exact .next ⟨rfl, rfl, rfl, rfl, rfl, hfeatures⟩
  | _ => exact .next ⟨rfl, rfl, rfl, rfl, rfl, hfeatures⟩

theorem step_alike (h : Alike a b) (hb : b.current.readsClock = false) :
    SameOutcome a.step b.step := by
  rw [step, step, ← h.current]
  exact execute_alike h hb

theorem next_of_alike (h : Alike a b) (hb : b.current.readsClock = false)
    (hstep : b.step = .next k) : ∃ p, a.step = .next p ∧ Alike p k := by
  have hsame := step_alike h hb
  rw [hstep] at hsame
  generalize a.step = x at hsame
  cases hsame with
  | next h' => exact ⟨_, rfl, h'⟩

theorem fault_of_alike (h : Alike a b) (hstep : b.step = .fault f k) :
    ∃ p, a.step = .fault f p ∧ Alike p k := by
  obtain ⟨code, hcur, -, -⟩ := of_step_fault hstep
  have hsame := step_alike h (by rw [hcur]; rfl)
  rw [hstep] at hsame
  generalize a.step = x at hsame
  cases hsame with
  | fault h' => exact ⟨_, rfl, h'⟩

theorem Paced.run (h : Paced m is k) (ht : Timeless is) (ha : Alike a m) :
    ∃ p, a.run is.length = .next p ∧ Alike p k := by
  induction h with
  | start => exact ⟨a, rfl, ha⟩
  | @step is k k' _ hstep ih =>
    obtain ⟨ht, hlast⟩ := timeless_append.1 ht
    obtain ⟨p, hp, halike⟩ := ih ht
    obtain ⟨p', hp', halike'⟩ := next_of_alike halike (hlast _ List.mem_cons_self) hstep
    refine ⟨p', ?_, halike'⟩
    rw [List.length_append, List.length_singleton]
    exact run_succ_last hp hp'
  | look _ ih =>
    obtain ⟨p, hp, halike⟩ := ih ht
    exact ⟨p, hp, halike.trans (alike_readClock _)⟩

end

/-! ## Rows of batches -/

/-- A row of batches that all yield, with the sum of the counts they yield and the instructions
they execute. Between batches the clock, the budget and the interval may change. -/
inductive Batches (m : Machine S K C) : Nat → List Instr → Machine S K C → Prop where
  | start : Batches m 0 [] m
  | outside {c : Nat} {is : List Instr} {k k' : Machine S K C} :
      Batches m c is k → Alike k k' → Batches m c is k'
  | batch {c d fuel : Nat} {is : List Instr} {k k' : Machine S K C} :
      Batches m c is k → k.batch fuel = .yielded d k' →
      Batches m (c + d) (is ++ k.batchTrace fuel) k'

theorem Batches.run {m k : Machine S K C} {c : Nat} {is : List Instr} (h : Batches m c is k)
    (ht : Timeless is) : ∃ p, m.run c = .next p ∧ Alike p k := by
  induction h with
  | start => exact ⟨m, rfl, Alike.refl m⟩
  | outside _ halike ih =>
    obtain ⟨p, hp, hk⟩ := ih ht
    exact ⟨p, hp, hk.trans halike⟩
  | batch _ hbatch ih =>
    obtain ⟨ht, htbatch⟩ := timeless_append.1 ht
    obtain ⟨p, hp, hk⟩ := ih ht
    obtain ⟨hpaced, rfl, -, -⟩ := paced_of_yielded hbatch
    obtain ⟨q, hq, hk'⟩ := hpaced.run htbatch hk
    exact ⟨q, by rw [run_add, hp]; exact hq, hk'⟩

end Machine

/-- A batch that yields, a batch that fails and a row of batches that yield do what a run of as many
instructions does, if none of the instructions reads the clock. What a batch yields is a positive
number of whole intervals, with or without such instructions. -/
theorem batches_are_runs {S K C : Type} [Screen S] [Keypad K] [Clock C] (m : Machine S K C) :
    (∀ fuel c k, m.batch fuel = .yielded c k →
      0 < c ∧ max m.config.interval 1 ∣ c ∧ k.cpu.cycles = m.cpu.cycles + c ∧
      c = (m.batchTrace fuel).length ∧
      (Timeless (m.batchTrace fuel) → ∃ p, m.run c = .next p ∧ p.Alike k)) ∧
    (∀ fuel f k, m.batch fuel = .fault f k →
      k.cpu.cycles = m.cpu.cycles + (m.batchTrace fuel).length ∧
      (Timeless (m.batchTrace fuel) →
        ∃ p, p.Alike k ∧ ∀ n, (m.batchTrace fuel).length < n → m.run n = .fault f p)) ∧
    (∀ c is k, m.Batches c is k → Timeless is → ∃ p, m.run c = .next p ∧ p.Alike k) := by
  refine ⟨?_, ?_, ?_⟩
  · intro fuel c k h
    obtain ⟨hpaced, rfl, hpos, hdvd⟩ := Machine.paced_of_yielded h
    exact ⟨hpos, hdvd, hpaced.kept.2, rfl, fun ht => hpaced.run ht (.refl m)⟩
  · intro fuel f k h
    obtain ⟨p, hpaced, hfault⟩ := Machine.paced_of_fault h
    obtain ⟨-, -, -, rfl⟩ := Machine.of_step_fault hfault
    refine ⟨hpaced.kept.2, fun ht => ?_⟩
    obtain ⟨q, hq, halike⟩ := hpaced.run ht (.refl m)
    obtain ⟨r, hr, halike'⟩ := Machine.fault_of_alike halike hfault
    refine ⟨r, halike', fun n hn => ?_⟩
    obtain ⟨j, rfl⟩ := Nat.exists_eq_add_of_lt hn
    rw [Nat.add_assoc, Machine.run_add, hq]
    exact Machine.run_fault j hr
  · intro c is k h ht
    exact h.run ht

/-- A loop of two instructions, `ADD A B` and `JMPI 0x0`, in intervals of three. -/
theorem exists_loop_batch :
    ∃ m k : Machine PixelLog KeyState ManualClock,
      Machine.boot [0x0a, 2, 3, 0, 0x31, 0, 0, 0] PixelLog.empty (KeyState.released .empty)
          (⟨0, 1⟩ : ManualClock) (.ofSeed 7) ⟨2, 3, .none⟩ = .ok m ∧
        m.batch 2 = .yielded 6 k ∧ m.config.interval = 3 ∧
        m.batchTrace 2 = [.alu .add 2 3, .jmpImm 0, .alu .add 2 3, .jmpImm 0, .alu .add 2 3,
          .jmpImm 0] :=
  ⟨_, _, rfl, rfl, rfl, rfl⟩

theorem batches_are_runs_of_loop :
    ∃ m k : Machine PixelLog KeyState ManualClock, m.batch 2 = .yielded 6 k ∧
      m.config.interval = 3 ∧ Timeless (m.batchTrace 2) ∧ max m.config.interval 1 ∣ 6 ∧
      ∃ p, m.run 6 = .next p ∧ p.Alike k := by
  obtain ⟨m, k, -, hyield, hinterval, htrace⟩ := exists_loop_batch
  have ht : Timeless (m.batchTrace 2) := by
    rw [htrace]
    unfold Timeless
    decide
  obtain ⟨-, hdvd, -, -, hrun⟩ := (batches_are_runs m).1 2 6 k hyield
  exact ⟨m, k, hyield, hinterval, ht, hdvd, hrun ht⟩

end Console16
