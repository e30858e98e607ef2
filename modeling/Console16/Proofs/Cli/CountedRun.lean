import Console16.Proofs.Cli.Perform
import Console16.Proofs.Cli.Places
import Console16.Proofs.Machine.Untimed

/-!
# Console16.Proofs.Cli.CountedRun

A run of a given number of instructions, with minimal output. The clock is looked at between its
intervals and set for the machine. A program without `TIME` cannot tell, so the run comes to what
the machine does with as many instructions in one go: a fault, reported at once, or a last state,
shown after the screen was saved.

* `World.Follows.bind`: two parts of a run, one after the other.
* `World.follows_runCycles`: the instructions of a run.
* `World.exec_run`: a whole run, from its words to its exit code.
-/

namespace Console16

namespace World

/-- Two systems on which nothing differs but the time. -/
structure SameButClock (u v : World) : Prop where
  files : u.files = v.files
  environment : u.environment = v.environment
  printed : u.printed = v.printed
  reported : u.reported = v.reported

variable {u v w : World}

namespace SameButClock

theorem refl (w : World) : SameButClock w w := ⟨rfl, rfl, rfl, rfl⟩

theorem symm (h : SameButClock u v) : SameButClock v u :=
  ⟨h.files.symm, h.environment.symm, h.printed.symm, h.reported.symm⟩

theorem trans (h : SameButClock u v) (h' : SameButClock v w) : SameButClock u w where
  files := h.files.trans h'.files
  environment := h.environment.trans h'.environment
  printed := h.printed.trans h'.printed
  reported := h.reported.trans h'.reported

theorem settings (h : SameButClock u v) : u.settings = v.settings := by
  rw [World.settings, h.environment, World.settings]

theorem say (h : SameButClock u v) (lines : List String) (headlines : List (List String)) :
    SameButClock (u.say lines headlines) (v.say lines headlines) where
  files := h.files
  environment := h.environment
  printed := congrArg (lines.reverse ++ ·) h.printed
  reported := congrArg (headlines.reverse ++ ·) h.reported

end SameButClock

/-- What a part of a run answers on a system, and the system after it: it follows the outcome of the
machine, and nothing else happens but that time passes. -/
inductive Follows (w : World) :
    Outcome ConsoleMachine → Except Failure ConsoleMachine × World → Prop where
  | next {k k' : ConsoleMachine} {after : World} :
      k.SameButClock k' → w.SameButClock after → Follows w (.next k) (.ok k', after)
  | fault {f : Fault} (k : ConsoleMachine) {after : World} :
      w.SameButClock after → Follows w (.fault f k) (.error (.fault f), after)

variable {a b : ConsoleMachine} {n i j : Nat}

theorem follows_advance (h : a.SameButClock b) (ha : a.Throughout Machine.Untimed n) (w : World) :
    w.Follows (a.run n) (w.perform (advance n b)) := by
  have hend := h.run ha
  unfold advance
  generalize a.run n = p at hend ⊢
  generalize b.run n = q at hend ⊢
  cases hend with
  | next h => exact .next h (.refl w)
  | fault f k k' => exact .fault k (.refl w)

theorem follows_refresh (h : a.SameButClock b) (epoch : UInt64) (w : World) :
    w.Follows (a.run 0) (w.perform (refresh epoch b)) :=
  .next (h.setClock _) ⟨rfl, rfl, rfl, rfl⟩

theorem Follows.bind {c : Task ConsoleMachine} {f : ConsoleMachine → Task ConsoleMachine}
    (hc : w.Follows (a.run i) (w.perform c))
    (hf : ∀ k k' after, a.run i = .next k → k.SameButClock k' →
      World.Follows after (k.run j) (after.perform (f k'))) :
    w.Follows (a.run (i + j)) (w.perform (c >>= f)) := by
  rw [Machine.run_add, perform_bind]
  generalize w.perform c = p at hc ⊢
  cases hrun : a.run i with
  | fault e k =>
    rw [hrun] at hc
    cases hc with
    | fault _ hafter => exact .fault k hafter
  | next k =>
    rw [hrun] at hc
    cases hc with
    | @next _ k' after hk hafter =>
      have hrest := hf k k' after hrun hk
      simp only
      generalize k.run j = q at hrest ⊢
      generalize after.perform (f k') = r at hrest ⊢
      cases hrest with
      | next hk' hlater => exact .next hk' (hafter.trans hlater)
      | fault k hlater => exact .fault k (hafter.trans hlater)

/-- By induction on the intervals; before each, the clock is set. -/
theorem follows_runIntervals (h : a.SameButClock b)
    (ha : a.Throughout Machine.Untimed (n * a.config.intervalCycles)) (epoch : UInt64) (w : World) :
    w.Follows (a.run (n * a.config.intervalCycles)) (w.perform (runIntervals epoch n b)) := by
  induction n generalizing a b w with
  | zero =>
    rw [Nat.zero_mul]
    exact .next h (.refl w)
  | succ n ih =>
    rw [Nat.succ_mul, Nat.add_comm] at ha ⊢
    -- setting the clock is a part of the run, one that executes nothing
    rw [← Nat.zero_add (a.config.intervalCycles + _)]
    refine (follows_refresh h epoch w).bind fun k k' after hk h => ?_
    cases hk
    rw [h.config]
    refine (follows_advance h ha.first after).bind fun k k' after hk h => ?_
    have hconfig := Machine.config_of_run hk
    have hrest := ha.rest hk
    rw [← hconfig] at hrest ⊢
    exact ih h hrest after

theorem follows_runCycles (h : a.SameButClock b) (ha : a.Throughout Machine.Untimed n)
    (epoch : UInt64) (w : World) :
    w.Follows (a.run n) (w.perform (runCycles epoch n b)) := by
  have hn : n = n / a.config.intervalCycles * a.config.intervalCycles +
      (0 + n % a.config.intervalCycles) := by
    rw [Nat.zero_add, Nat.div_add_mod']
  unfold runCycles
  dsimp only
  rw [h.config]
  generalize n / a.config.intervalCycles = whole at hn ⊢
  generalize n % a.config.intervalCycles = part at hn ⊢
  subst hn
  refine (follows_runIntervals h ha.first epoch w).bind fun k k' after hk h => ?_
  have hrest := ha.rest hk
  refine (follows_refresh h epoch after).bind fun p p' after hp h => ?_
  exact follows_advance h (hrest.rest hp) after

/-! ## Whole runs -/

/-- The end of a minimal run: the screen is saved, then the state is printed. -/
def showing (screenshot : Option String) (k : ConsoleMachine) : Task Unit := do
  if let some path := screenshot then
    attempt .file (Host.writeFile path k.screen.ppm)
  (stateLines k.cpu).forM (Host.print ·)

/-- The exit code of a minimal run and the system after it, from the outcome of the machine. -/
def concluded (w : World) (screenshot : Option String) :
    Outcome ConsoleMachine → UInt32 × World
  | .fault f _ => (1, w.say [] (Failure.fault f).drawing)
  | .next k =>
    match screenshot with
    | none => (0, w.say (stateLines k.cpu) [])
    | some path =>
      match w.write path k.screen.ppm with
      | .error e => (1, w.say [] (Failure.file e).drawing)
      | .ok after => (0, after.say (stateLines k.cpu) [])

/-- Equal exit codes and systems on which nothing differs but the time. -/
def SameExit (p q : UInt32 × World) : Prop :=
  p.1 = q.1 ∧ p.2.SameButClock q.2

theorem SameExit.symm {p q : UInt32 × World} (h : SameExit p q) : SameExit q p :=
  ⟨h.1.symm, h.2.symm⟩

theorem SameExit.trans {p q r : UInt32 × World} (h : SameExit p q) (h' : SameExit q r) :
    SameExit p r :=
  ⟨h.1.trans h'.1, h.2.trans h'.2⟩

theorem stateLines_eq (h : a.SameButClock b) : stateLines b.cpu = stateLines a.cpu := by
  have hreg : registerText b.cpu = registerText a.cpu := by
    funext r
    rw [registerText, h.cpu.reg, registerText]
  rw [stateLines, hreg, h.cpu.ip, h.cpu.flags, h.cpu.cycles, stateLines]

theorem perform_forM_print (w : World) (lines : List String) :
    w.perform (lines.forM (Host.print ·)) = (.ok (), w.say lines []) := by
  induction lines generalizing w with
  | nil => rfl
  | cons line lines ih =>
    have hcons : (line :: lines).forM (m := Task) (Host.print ·) =
        (Host.print line >>= fun _ => lines.forM (Host.print ·)) := rfl
    rw [hcons, perform_bind, perform_print]
    simp only
    rw [ih, say_say]
    rfl

theorem sameExit_concluded (h : u.SameButClock v) {p q : Outcome ConsoleMachine}
    (hend : Machine.SameEnd p q) (screenshot : Option String) :
    SameExit (u.concluded screenshot p) (v.concluded screenshot q) := by
  cases hend with
  | fault f k k' => exact ⟨rfl, h.say _ _⟩
  | @next a b hk =>
    simp only [concluded, stateLines_eq hk, hk.screen]
    cases screenshot with
    | none => exact ⟨rfl, h.say _ _⟩
    | some path =>
      simp only
      rcases write_congr h.files path a.screen.ppm with ⟨e, hu, hv⟩ | ⟨files, hu, hv⟩
      · rw [hu, hv]
        exact ⟨rfl, h.say _ _⟩
      · rw [hu, hv]
        have hsaved : SameButClock { u with files } { v with files } :=
          ⟨rfl, h.environment, h.printed, h.reported⟩
        exact ⟨rfl, hsaved.say _ _⟩

theorem runCommand_eq {options : RunOptions} (hminimal : options.minimal = true)
    (hcycles : options.cycles = some n) (settings : Settings) (file : String) :
    (runCommand settings file options : Task Unit) = (do
      let image ← imageOf file true
      let epoch ← Host.millis
      let machine ← attempt .load (return prepare image options settings (← Host.entropy))
      let machine ← runCycles epoch n machine
      showing options.screenshot machine) := by
  obtain ⟨cycles, millis, screenshot, inputs, features, seed, minimal⟩ := options
  cases hminimal
  cases hcycles
  cases screenshot with
  | none => rfl
  | some path => rfl

theorem perform_writeFile (w : World) (path : String) (bytes : List UInt8) :
    w.perform (attempt .file (Host.writeFile path bytes)) =
      match w.write path bytes with
      | .ok after => (.ok (), after)
      | .error e => (.error (.file e), w) := by
  have hrun : ((Host.writeFile path bytes : StateM World _).run w).run =
      match w.write path bytes with
      | .ok after => (.ok (), after)
      | .error e => (.error e, w) := by
    change ((match w.write path bytes with
      | .ok after => do
        set after
        return .ok ()
      | .error e => return .error e : StateM World (Except FileError Unit)).run w).run = _
    cases w.write path bytes with
    | error e => rfl
    | ok after => rfl
  rw [perform_attempt, hrun]
  cases w.write path bytes with
  | error e => rfl
  | ok after => rfl

theorem concluded_next (w : World) (screenshot : Option String) (k : ConsoleMachine) :
    w.concluded screenshot (.next k) = exitOf (w.perform (showing screenshot k)) := by
  cases screenshot with
  | none =>
    have hshow : showing none k = (stateLines k.cpu).forM (Host.print ·) := rfl
    rw [hshow, perform_forM_print]
    rfl
  | some path =>
    have hshow : showing (some path) k = (do
        attempt .file (Host.writeFile path k.screen.ppm)
        (stateLines k.cpu).forM (Host.print ·)) := rfl
    rw [hshow, perform_bind, perform_writeFile]
    simp only [concluded]
    cases w.write path k.screen.ppm with
    | error e => rfl
    | ok after =>
      simp only
      rw [perform_forM_print, exitOf_ok]

theorem exec_run {words : List String} {file : String} {options : RunOptions}
    {image : List UInt8} {machine : ConsoleMachine}
    (hwords : Invocation.parse words = .ok (.run file options))
    (hminimal : options.minimal = true) (hcycles : options.cycles = some n)
    (himage : w.perform (imageOf file true) = (.ok image, w))
    (hprepare : ∀ entropy, prepare image options w.settings entropy = .ok machine)
    (huntimed : machine.Throughout Machine.Untimed n) :
    SameExit (w.concluded options.screenshot (machine.run n)) (w.exec words) := by
  let started : World := { w with readings := w.readings + 1 }
  have hmillis : w.perform Host.millis = (.ok w.now, started) := rfl
  have hload : started.perform (attempt .load
      (return prepare image options w.settings (← Host.entropy))) = (.ok machine, started) := by
    have hrun : ((return prepare image options w.settings (← Host.entropy) :
        StateM World _).run started).run = (prepare image options w.settings 0, started) := rfl
    rw [perform_attempt, hrun, hprepare]
  rw [exec_eq hwords, Invocation.execute, runCommand_eq hminimal hcycles, perform_bind, himage]
  simp only
  rw [perform_bind, hmillis]
  simp only
  rw [perform_bind, hload]
  simp only
  rw [perform_bind]
  have hstarted : w.SameButClock started := ⟨rfl, rfl, rfl, rfl⟩
  have hfollows := follows_runCycles (.refl machine) huntimed w.now started
  generalize machine.run n = outcome at hfollows ⊢
  generalize started.perform (runCycles w.now n machine) = answer at hfollows ⊢
  cases hfollows with
  | fault k hafter => exact ⟨rfl, (hstarted.trans hafter).say _ _⟩
  | @next k k' after hk hafter =>
    simp only
    rw [← concluded_next]
    exact sameExit_concluded (hstarted.trans hafter) (.next hk) _

end World
end Console16
