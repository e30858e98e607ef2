import Console16.Proofs.Machine.Isolation

/-!
# Console16.Proofs.Machine.Untimed

Machines that differ in nothing but the clock. `TIME` is the only instruction that brings a reading
where a program can see it: `TIMERST` puts one aside, and only `TIME` looks there. A program that
does not execute `TIME` runs the same however its clock is set, and whenever.

* `Machine.SameButClock.step`: one instruction other than `TIME`.
* `Machine.SameButClock.run`: a run without `TIME`, to its end or to its fault.
-/

namespace Console16
namespace Machine

variable {S K C : Type}

/-- Two machines that differ in nothing but the clock and the reading their timers count from. -/
structure SameButClock (a b : Machine S K C) : Prop extends Alongside a b where
  screen : b.screen = a.screen
  keypad : b.keypad = a.keypad
  config : b.config = a.config
  halted : b.halted = a.halted

/-- Outcomes of one kind: machines that differ in nothing but the clock, or faults that are the
same. -/
inductive SameEnd : Outcome (Machine S K C) → Outcome (Machine S K C) → Prop where
  | next {a b : Machine S K C} : SameButClock a b → SameEnd (.next a) (.next b)
  | fault (f : Fault) (a b : Machine S K C) : SameEnd (.fault f a) (.fault f b)

/-- The next instruction is not `TIME`. -/
def Untimed (m : Machine S K C) : Prop :=
  ∀ dest, m.current ≠ .time dest

namespace SameButClock

variable {a b : Machine S K C}

theorem refl (a : Machine S K C) : SameButClock a a :=
  ⟨⟨⟨rfl, rfl, rfl, rfl, rfl, rfl⟩, rfl, rfl⟩, rfl, rfl, rfl, rfl⟩

theorem setClock (h : SameButClock a b) (clock : C) : SameButClock a (b.setClock clock) :=
  ⟨⟨h.cpu, h.random, h.features⟩, h.screen, h.keypad, h.config, h.halted⟩

variable [Screen S] [Keypad K] [Clock C]

theorem complete (h : SameButClock a b) {i : Instr} (hi : ∀ dest, i ≠ .time dest) :
    SameButClock (a.complete i) (b.complete i) := by
  have hinput : ∀ dest id, i = .input dest id → b.inputWord id = a.inputWord id := by
    intro dest id _
    rw [inputWord, h.keypad, h.cpu.reg, inputWord]
  refine ⟨h.toAlongside.complete i hinput fun dest htime => absurd htime (hi dest), ?_, h.keypad,
    h.config, h.halted⟩
  change b.screenAfter i = a.screenAfter i
  rw [screenAfter, h.pixel?, h.screen, screenAfter]

theorem step (h : SameButClock a b) (ha : a.Untimed) : SameEnd a.step b.step := by
  cases hstep : a.step with
  | fault f k =>
    rw [h.toAlongside.fault hstep]
    exact .fault f _ _
  | next k =>
    cases hstep' : b.step with
    | fault f k' =>
      rw [h.symm.fault hstep'] at hstep
      cases hstep
    | next k' =>
      obtain rfl := of_step_next hstep
      obtain rfl := of_step_next hstep'
      rw [h.current]
      exact .next (h.complete ha)

/-- By induction on the instructions; both runs end at the first fault. -/
theorem run {n : Nat} (h : SameButClock a b) (ha : a.Throughout Untimed n) :
    SameEnd (a.run n) (b.run n) := by
  induction n generalizing a b with
  | zero => exact .next h
  | succ n ih =>
    have hend := h.step ha.now
    rw [Machine.run, Machine.run]
    cases hstep : a.step with
    | next k =>
      rw [hstep] at hend
      generalize b.step = q at hend ⊢
      cases hend with
      | next hk => exact ih hk (ha.later hstep)
    | fault f k =>
      rw [hstep] at hend
      generalize b.step = q at hend ⊢
      cases hend
      exact .fault f _ _

end SameButClock

theorem SameEnd.refl (p : Outcome (Machine S K C)) : SameEnd p p := by
  cases p with
  | next m => exact .next (.refl m)
  | fault f m => exact .fault f m m

variable [Screen S] [Keypad K] [Clock C] {m k : Machine S K C} {P : Machine S K C → Prop}
variable {i j : Nat}

theorem config_of_run {n : Nat} (h : m.run n = .next k) : k.config = m.config := by
  induction n generalizing m with
  | zero =>
    cases h
    rfl
  | succ n ih =>
    rw [run] at h
    cases hstep : m.step with
    | fault f p =>
      rw [hstep] at h
      cases h
    | next p =>
      rw [hstep] at h
      exact (ih h).trans (kept_of_execute hstep).1

theorem Throughout.first (h : m.Throughout P (i + j)) : m.Throughout P i :=
  fun n hn => h n (Nat.lt_add_right j hn)

theorem Throughout.rest (h : m.Throughout P (i + j)) (hk : m.run i = .next k) :
    k.Throughout P j := by
  intro n hn p hp
  refine h (i + n) (Nat.add_lt_add_left hn i) p ?_
  rw [run_add, hk]
  exact hp

end Machine
end Console16
