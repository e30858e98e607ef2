import Console16.Proofs.Machine.Frame
import Console16.Proofs.Machine.Loaded
import Console16.Proofs.Machine.Session

/-!
# Console16.Proofs.Machine.Timer

What the timer counts from. The reference is the reading that the last `TIMERST` took, or the one
taken when the machine was booted; looks at the clock between the intervals of a batch and faults do
not move it, and neither does a host that sets the clock. `TIME` stores how far the clock has come
since then, forwards or backwards, modulo the size of a word.

* `Machine.timerRef_step`: one instruction.
* `Machine.timerRef_of_executes`: instructions one after another, with a host between them.
* `time_counts_from_last_reset`: every `TIME` of every session.
-/

namespace Console16

/-- A difference of readings that is cut to a word is the difference of the numbers, modulo the size
of a word. -/
theorem toNat_elapsed (now ref : UInt64) :
    ((now - ref).toUInt16.toNat : Int) = ((now.toNat : Int) - ref.toNat) % 65536 := by
  have := now.toNat_lt
  have := ref.toNat_lt
  simp only [UInt64.toNat_toUInt16, UInt64.toNat_sub]
  omega

namespace Machine

variable {S K C : Type} [Clock C]

/-- The reading that the next instruction lets the timer count from, if it is a `TIMERST`. -/
def restart? (m : Machine S K C) : Option UInt64 :=
  match m.current with
  | .timerRst => some (Clock.read m.clock).1
  | _ => none

/-- The reading the timer counts from after the instructions of a history: that of the last
`TIMERST`, or `first` if there is none. -/
def timerStart (first : UInt64) (past : List (Machine S K C)) : UInt64 :=
  (past.filterMap restart?).getLastD first

theorem timerStart_concat (first : UInt64) (past : List (Machine S K C)) (p : Machine S K C) :
    timerStart first (past ++ [p]) = p.restart?.getD (timerStart first past) := by
  rw [timerStart, List.filterMap_append, timerStart]
  cases h : p.restart? with
  | none => simp [h]
  | some r => simp [h]

theorem timerStart_of_no_restart (first : UInt64) {past : List (Machine S K C)}
    (h : ∀ p ∈ past, p.current ≠ .timerRst) : timerStart first past = first := by
  have hnone : past.filterMap restart? = [] := by
    rw [List.filterMap_eq_nil_iff]
    intro p hp
    unfold restart?
    split
    · rename_i hcur
      exact absurd hcur (h p hp)
    · rfl
  rw [timerStart, hnone, List.getLastD_nil]

variable [Screen S] [Keypad K]

theorem timerRef_step {m k : Machine S K C} (h : m.step = .next k) :
    k.cpu.timerRef = m.restart?.getD m.cpu.timerRef := by
  obtain rfl := of_step_next h
  rw [(changes_complete m m.current).timerRef, restart?]
  cases m.current <;> rfl

theorem timerRef_of_executes {m k : Machine S K C} {past : List (Machine S K C)}
    (h : Executes m past k) : k.cpu.timerRef = timerStart m.cpu.timerRef past := by
  induction h with
  | start => rfl
  | step _ hstep ih => rw [timerRef_step hstep, ih, timerStart_concat]
  | setReg _ _ _ ih => exact ih
  | setKeypad _ _ ih => exact ih
  | setClock _ _ ih => exact ih
  | halt _ ih => exact ih

theorem step_time {m : Machine S K C} {dest : Register} (h : m.current = .time dest) :
    ∃ k, m.step = .next k ∧
      ((k.cpu.reg dest).toNat : Int) =
        (((Clock.read m.clock).1.toNat : Int) - m.cpu.timerRef.toNat) % 65536 := by
  refine ⟨_, step_eq h nofun, ?_⟩
  have hreg : (m.complete (.time dest)).cpu.reg dest = m.elapsed :=
    Cpu.reg_setReg_self m.cpu dest _
  rw [hreg]
  exact toNat_elapsed _ _

end Machine

/-- In a session with a machine that was just booted, whatever the host does with the clock, each
`TIME` stores its own reading less the reading of the last `TIMERST` before it, or of the boot if
there was none. Only a `TIMERST` moves what the timer counts from. -/
theorem time_counts_from_last_reset {S K C : Type} [Screen S] [Keypad K] [Clock C]
    {image : List UInt8} {screen : S} {keypad : K} {clock : C} {random : Stream}
    {config : RunConfig} {m₀ : Machine S K C}
    (h : Machine.boot image screen keypad clock random config = .ok m₀)
    (ops : List (HostOp K C)) :
    (m₀.after ops).cpu.timerRef = Machine.timerStart (Clock.read clock).1 (m₀.history ops) ∧
    (∀ past p later dest, m₀.history ops = past ++ p :: later → p.current = .time dest →
      ∃ k, p.step = .next k ∧
        ((k.cpu.reg dest).toNat : Int) =
          (((Clock.read p.clock).1.toNat : Int) -
            (Machine.timerStart (Clock.read clock).1 past).toNat) % 65536) ∧
    ∀ op, (∀ p ∈ (m₀.after ops).executed op, p.current ≠ .timerRst) →
      ((m₀.after ops).perform op).cpu.timerRef = (m₀.after ops).cpu.timerRef := by
  have href : m₀.cpu.timerRef = (Clock.read clock).1 := by
    obtain ⟨memory, -, rfl⟩ := Machine.boot_eq_ok_iff.1 h
    rfl
  have hall := Machine.executes_history m₀ ops
  refine ⟨?_, ?_, ?_⟩
  · rw [← href]
    exact Machine.timerRef_of_executes hall
  · intro past p later dest hsplit hcur
    obtain ⟨k, hstep, hreg⟩ := Machine.step_time hcur
    have hbefore : m₀.Executes past p := (hsplit ▸ hall).before
    refine ⟨k, hstep, ?_⟩
    rw [hreg, Machine.timerRef_of_executes hbefore, href]
  · intro op hop
    rw [Machine.timerRef_of_executes (Machine.executes_perform _ op),
      Machine.timerStart_of_no_restart _ hop]

/-- `TIME A`, `TIMERST`, `TIME B` and a byte that is no opcode, in a strict machine with a clock that
goes on by three at every reading. The host sets the clock back before the second `TIME`, and has a
batch executed that reads the clock, too, and meets a fault. -/
theorem exists_clock_set_back :
    ∃ m₀ p q r : Machine PixelLog KeyState ManualClock,
      Machine.boot [0x1a, 2, 0, 0, 0x1b, 0, 0, 0, 0x1a, 3, 0, 0, 0x20] PixelLog.empty
          (KeyState.released .empty) (⟨1000, 3⟩ : ManualClock) (.ofSeed 7) ⟨10, 100, ⟨true⟩⟩ =
        .ok m₀ ∧
      m₀.history [.run 2, .setClock ⟨40, 3⟩, .batch 2] = [p, q] ++ r :: [] ∧
      r.current = .time 3 ∧ (Clock.read r.clock).1 = 43 ∧
      Machine.timerStart 1000 [p, q] = 1006 :=
  ⟨_, _, _, _, rfl, rfl, rfl, rfl, rfl⟩

theorem time_counts_from_last_reset_of_clock_set_back :
    ∃ (image : List UInt8) (m₀ r k : Machine PixelLog KeyState ManualClock),
      Machine.boot image PixelLog.empty (KeyState.released .empty) (⟨1000, 3⟩ : ManualClock)
          (.ofSeed 7) ⟨10, 100, ⟨true⟩⟩ = .ok m₀ ∧
      r ∈ m₀.history [.run 2, .setClock ⟨40, 3⟩, .batch 2] ∧ r.current = .time 3 ∧
      r.step = .next k ∧ ((k.cpu.reg 3).toNat : Int) = (43 - 1006) % 65536 := by
  obtain ⟨m₀, p, q, r, hboot, hhistory, hcur, hread, hstart⟩ := exists_clock_set_back
  obtain ⟨-, htime, -⟩ :=
    time_counts_from_last_reset hboot [.run 2, .setClock ⟨40, 3⟩, .batch 2]
  obtain ⟨k, hstep, hreg⟩ := htime _ _ _ _ hhistory hcur
  have hfirst : (Clock.read (⟨1000, 3⟩ : ManualClock)).1 = 1000 := rfl
  rw [hread, hfirst, hstart] at hreg
  refine ⟨_, m₀, r, k, hboot, ?_, hcur, hstep, hreg⟩
  rw [hhistory]
  exact List.mem_append_right _ List.mem_cons_self

end Console16
