import Console16.Cli.Command
import Console16.Cli.World

/-!
# Console16.Proofs.Cli.Perform

Commands on a system that is a value. A command is taken apart step by step: each step answers or
fails and leaves a system behind, and the next one is done on that.

* `World.perform_bind`: two steps, one after the other.
* `World.perform_assembleFile`: a source file is read and assembled, and nothing changes.
* `World.exec_eq`: a command line that makes sense, from its words to its exit code.
-/

namespace Console16

/-- A step of a command on a system that is a value. -/
abbrev Task (α : Type) : Type :=
  ExceptT Failure (StateM World) α

namespace World

variable {α β E : Type}

/-- What a step of a command answers, and the system after it. -/
def perform (w : World) (c : Task α) : Except Failure α × World :=
  (c.run.run w).run

/-- The exit code of a command line, and the system after it. -/
def exec (w : World) (words : List String) : UInt32 × World :=
  ((commandLine words : StateM World UInt32).run w).run

/-- The system after some lines were printed and some headlines reported. -/
def say (w : World) (lines : List String) (headlines : List (List String)) : World :=
  { w with
    printed := lines.reverse ++ w.printed
    reported := headlines.reverse ++ w.reported }

theorem say_say (w : World) (lines more : List String) (headlines others : List (List String)) :
    (w.say lines headlines).say more others = w.say (lines ++ more) (headlines ++ others) := by
  simp [say]

@[simp] theorem files_say (w : World) (lines : List String) (headlines : List (List String)) :
    (w.say lines headlines).files = w.files := rfl

/-! ## Steps -/

theorem perform_bind (w : World) (c : Task α) (f : α → Task β) :
    w.perform (c >>= f) =
      match w.perform c with
      | (.ok a, after) => after.perform (f a)
      | (.error e, after) => (.error e, after) := by
  have hbind : w.perform (c >>= f) =
      ((ExceptT.bindCont f (w.perform c).1).run (w.perform c).2).run := rfl
  rw [hbind]
  rcases w.perform c with ⟨e | a, after⟩
  · rfl
  · rfl

@[simp] theorem perform_pure (w : World) (a : α) : w.perform (pure a) = (.ok a, w) := rfl

@[simp] theorem perform_throw (w : World) (e : Failure) :
    w.perform (throw e : Task α) = (.error e, w) := rfl

@[simp] theorem perform_print (w : World) (line : String) :
    w.perform (Host.print line) = (.ok (), w.say [line] []) := rfl

/-- A step that cannot fail. -/
theorem perform_lift (w : World) (c : StateM World α) :
    w.perform (liftM c) = (.ok (c.run w).run.1, (c.run w).run.2) := rfl

theorem perform_attempt (w : World) (failure : E → Failure) (action : StateM World (Except E α)) :
    w.perform (attempt failure action) =
      match (action.run w).run with
      | (.ok a, after) => (.ok a, after)
      | (.error e, after) => (.error (failure e), after) := by
  rw [attempt, perform_bind, perform_lift]
  rcases (action.run w).run with ⟨e | a, after⟩
  · rfl
  · rfl

/-! ## Source files -/

/-- The text of a source file. -/
def textOf (w : World) (file : String) : Except Failure String :=
  match w.read file with
  | .error e => .error (.file e)
  | .ok bytes =>
    match decodeText? bytes with
    | none => .error .notText
    | some source => .ok source

/-- The image of a source file. -/
def assembled (w : World) (file : String) : Except Failure (List UInt8) :=
  match w.textOf file with
  | .error e => .error e
  | .ok source =>
    match assemble source with
    | .error errors => .error (.assembly errors)
    | .ok image => .ok image

theorem assembled_eq_ok_iff {w : World} {file : String} {image : List UInt8} :
    w.assembled file = .ok image ↔
      ∃ source, w.textOf file = .ok source ∧ assemble source = .ok image := by
  unfold assembled
  cases htext : w.textOf file with
  | error e => simp
  | ok source => cases himage : assemble source <;> simp [himage]

theorem perform_assembleFile (w : World) (file : String) :
    w.perform (assembleFile file) = (w.assembled file, w) := by
  have hread : ((Host.readFile file : StateM World _).run w).run = (w.read file, w) := rfl
  rw [assembleFile, perform_bind, perform_attempt, hread, assembled, textOf]
  cases w.read file with
  | error e => rfl
  | ok bytes =>
    cases htext : decodeText? bytes with
    | none => simp only [htext, perform_throw]
    | some source =>
      cases himage : assemble source <;> simp only [htext, himage, perform_throw, perform_pure]

/-! ## Command lines -/

/-- The settings that the environment asks for. -/
def settings (w : World) : Settings :=
  .ofVariables (w.environment.lookup Settings.batchVariable)
    (w.environment.lookup Settings.intervalVariable)

/-- The exit code of a command, and the system after what it failed for was reported. -/
def exitOf : Except Failure Unit × World → UInt32 × World
  | (.ok (), after) => (0, after)
  | (.error e, after) => (1, after.say [] e.drawing)

@[simp] theorem exitOf_ok (after : World) : exitOf (.ok (), after) = (0, after) := rfl

@[simp] theorem exitOf_error (e : Failure) (after : World) :
    exitOf (.error e, after) = (1, after.say [] e.drawing) := rfl

theorem exec_eq {words : List String} {invocation : Invocation}
    (h : Invocation.parse words = .ok invocation) (w : World) :
    w.exec words = exitOf (w.perform (invocation.execute w.settings)) := by
  have hbind : ∀ {α : Type} (c : StateM World α) (f : α → StateM World UInt32),
      ((c >>= f).run w).run = ((f (c.run w).run.1).run (c.run w).run.2).run := fun _ _ => rfl
  have henv : ∀ name (f : Option String → StateM World UInt32),
      ((Host.envVar name >>= f).run w).run = ((f (w.environment.lookup name)).run w).run :=
    fun _ _ => rfl
  rw [exec, commandLine, h]
  simp only
  rw [henv, henv, hbind, perform, settings]
  generalize ((invocation.execute _ : Task Unit).run.run w).run = answer
  rcases answer with ⟨e | _, after⟩
  · rfl
  · rfl

end World
end Console16
