import Console16.Machine.Batch
import Console16.Proofs.Machine.Stepwise

/-!
# Console16.Proofs.Machine.Session

What a host does with a machine: it has instructions executed, one at a time, by the number or in
batches, and in between it changes registers, devices and the halt flag. The history of a session
holds the machine before each instruction that was executed, so that whatever an instruction read
can be looked up there; an instruction that met a fault was not executed.

* `Machine.Executes`: a session taken apart into single instructions and what is between them.
* `Machine.executes_history`: every session is one of these.
-/

namespace Console16

/-- What a host can do with a machine. A batch that is not over after `fuel` intervals is left where
it is; key events are changes of the keypad. -/
inductive HostOp (K C : Type) where
  | step
  | run (n : Nat)
  | batch (fuel : Nat)
  | setReg (r : Register) (v : UInt16)
  | setKeypad (keypad : K)
  | setClock (clock : C)
  | halt

/-- The machine a batch leaves behind. -/
def BatchOutcome.machine {M : Type} : BatchOutcome M → M
  | .yielded _ m => m
  | .halted m => m
  | .fault _ m => m
  | .unfinished m => m

namespace Machine

variable {S K C : Type} [Screen S] [Keypad K] [Clock C]

def perform (m : Machine S K C) : HostOp K C → Machine S K C
  | .step => m.step.machine
  | .run n => (m.run n).machine
  | .batch fuel => (m.batch fuel).machine
  | .setReg r v => m.setReg r v
  | .setKeypad keypad => m.setKeypad keypad
  | .setClock clock => m.setClock clock
  | .halt => m.halt

/-- The machine after a session. -/
def after (m : Machine S K C) : List (HostOp K C) → Machine S K C
  | [] => m
  | op :: ops => (m.perform op).after ops

/-! ## What is executed -/

/-- The machines before the instructions that a run of `n` executes. -/
def runHistory : Nat → Machine S K C → List (Machine S K C)
  | 0, _ => []
  | n + 1, m =>
    match m.step with
    | .next k => m :: k.runHistory n
    | .fault _ _ => []

/-- The machines before the instructions that the intervals of a batch execute. -/
def loopHistory (deadline : UInt64) : Nat → Machine S K C → List (Machine S K C)
  | 0, _ => []
  | fuel + 1, m =>
    m.runHistory m.config.intervalCycles ++
      match m.run m.config.intervalCycles with
      | .fault _ _ => []
      | .next k =>
        let (now, k) := k.readClock
        if deadline ≤ now then [] else loopHistory deadline fuel k

/-- The machines before the instructions that a batch executes. -/
def batchHistory (fuel : Nat) (m : Machine S K C) : List (Machine S K C) :=
  if m.halted then []
  else
    let (now, k) := m.readClock
    loopHistory (saturatingAdd now k.config.budget) fuel k

/-- The machines before the instructions that are executed for one operation of the host. -/
def executed (m : Machine S K C) : HostOp K C → List (Machine S K C)
  | .step => m.runHistory 1
  | .run n => m.runHistory n
  | .batch fuel => m.batchHistory fuel
  | _ => []

/-- The machines before the instructions that are executed in a session. -/
def history (m : Machine S K C) : List (HostOp K C) → List (Machine S K C)
  | [] => []
  | op :: ops => m.executed op ++ (m.perform op).history ops

/-! ## Instruction by instruction -/

/-- Instructions one after another, each with the machine before it, and between them what a host
may change. A fault halts the machine and does nothing else. -/
inductive Executes (m : Machine S K C) : List (Machine S K C) → Machine S K C → Prop where
  | start : Executes m [] m
  | step {past : List (Machine S K C)} {k k' : Machine S K C} :
      Executes m past k → k.step = .next k' → Executes m (past ++ [k]) k'
  | setReg {past : List (Machine S K C)} {k : Machine S K C} (r : Register) (v : UInt16) :
      Executes m past k → Executes m past (k.setReg r v)
  | setKeypad {past : List (Machine S K C)} {k : Machine S K C} (keypad : K) :
      Executes m past k → Executes m past (k.setKeypad keypad)
  | setClock {past : List (Machine S K C)} {k : Machine S K C} (clock : C) :
      Executes m past k → Executes m past (k.setClock clock)
  | halt {past : List (Machine S K C)} {k : Machine S K C} :
      Executes m past k → Executes m past k.halt

section
variable {m k p : Machine S K C} {past later : List (Machine S K C)}

theorem Executes.trans (hk : Executes m past k) (hp : Executes k later p) :
    Executes m (past ++ later) p := by
  induction hp with
  | start => simpa using hk
  | step _ hstep ih =>
    rw [← List.append_assoc]
    exact ih.step hstep
  | setReg r v _ ih => exact ih.setReg r v
  | setKeypad keypad _ ih => exact ih.setKeypad keypad
  | setClock clock _ ih => exact ih.setClock clock
  | halt _ ih => exact ih.halt

theorem Executes.look (hk : Executes m past k) : Executes m past k.readClock.2 :=
  hk.setClock _

/-- Every machine of a history was reached by what was executed before it. -/
theorem Executes.before (h : Executes m (past ++ p :: later) k) : Executes m past p := by
  generalize hall : past ++ p :: later = all at h
  induction h generalizing later with
  | start => simp at hall
  | step hk _ ih =>
    rcases List.eq_nil_or_concat later with rfl | ⟨rest, last, rfl⟩
    · obtain ⟨rfl, rfl⟩ := List.append_singleton_inj.1 hall
      exact hk
    · rw [List.concat_eq_append, ← List.cons_append, ← List.append_assoc] at hall
      obtain ⟨hrest, -⟩ := List.append_singleton_inj.1 hall
      exact ih hrest
  | setReg _ _ _ ih => exact ih hall
  | setKeypad _ _ ih => exact ih hall
  | setClock _ _ ih => exact ih hall
  | halt _ ih => exact ih hall

theorem executes_of_fault {f : Fault} (hstep : m.step = .fault f k) : Executes m [] k := by
  obtain ⟨-, -, -, rfl⟩ := of_step_fault hstep
  exact Executes.start.halt

end

theorem run_one (m : Machine S K C) : m.run 1 = m.step := by
  rw [run]
  cases m.step <;> rfl

theorem executes_run (n : Nat) (m : Machine S K C) :
    Executes m (m.runHistory n) (m.run n).machine := by
  induction n generalizing m with
  | zero => exact .start
  | succ n ih =>
    rw [run, runHistory]
    cases hstep : m.step with
    | next k => exact (Executes.start.step hstep).trans (ih k)
    | fault f k => exact executes_of_fault hstep

theorem executes_loop (deadline : UInt64) (start fuel : Nat) (m : Machine S K C) :
    Executes m (loopHistory deadline fuel m) (batchLoop deadline start fuel m).machine := by
  induction fuel generalizing m with
  | zero => exact .start
  | succ fuel ih =>
    have hrun := executes_run m.config.intervalCycles m
    rw [batchLoop, loopHistory]
    cases hout : m.run m.config.intervalCycles with
    | fault f k =>
      rw [hout] at hrun
      rw [List.append_nil]
      exact hrun
    | next k =>
      rw [hout] at hrun
      have hlook : Executes m (m.runHistory m.config.intervalCycles) k.readClock.2 := hrun.look
      simp only
      split
      · rw [List.append_nil]
        exact hlook
      · exact hlook.trans (ih _)

theorem executes_batch (fuel : Nat) (m : Machine S K C) :
    Executes m (m.batchHistory fuel) (m.batch fuel).machine := by
  unfold batch batchHistory
  split
  · exact .start
  · exact Executes.start.look.trans (executes_loop _ _ fuel _)

theorem executes_perform (m : Machine S K C) (op : HostOp K C) :
    Executes m (m.executed op) (m.perform op) := by
  cases op with
  | step =>
    rw [perform, ← run_one]
    exact executes_run 1 m
  | run n => exact executes_run n m
  | batch fuel => exact executes_batch fuel m
  | setReg r v => exact Executes.start.setReg r v
  | setKeypad keypad => exact Executes.start.setKeypad keypad
  | setClock clock => exact Executes.start.setClock clock
  | halt => exact Executes.start.halt

theorem executes_history (m : Machine S K C) (ops : List (HostOp K C)) :
    Executes m (m.history ops) (m.after ops) := by
  induction ops generalizing m with
  | nil => exact .start
  | cons op ops ih => exact (executes_perform m op).trans (ih _)

end Machine
end Console16
