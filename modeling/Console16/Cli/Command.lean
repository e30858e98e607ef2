import Console16.Asm.Assemble
import Console16.Cli.Args
import Console16.Cli.Drive
import Console16.Cli.Report

/-!
# Console16.Cli.Command

The commands: run a program, compile a source file, check source files. A command ends at its first
failure; only `check` goes on after a file that does not assemble.

* `Invocation.execute`: what a command does.
* `commandLine`: the whole program, from its words to its exit code.
-/

namespace Console16

section
variable {m : Type → Type} [Monad m] [Host m]

/-- Turns what the system says into a step of a command. -/
def attempt {α E : Type} (failure : E → Failure) (action : m (Except E α)) :
    ExceptT Failure m α := do
  match ← action with
  | .ok a => return a
  | .error e => throw (failure e)

/-- The bytes as text, if they are UTF-8. -/
def decodeText? (bytes : List UInt8) : Option String :=
  String.fromUTF8? ⟨bytes.toArray⟩

/-- Reads a source file and assembles it. -/
def assembleFile (file : String) : ExceptT Failure m (List UInt8) := do
  let bytes ← attempt .file (Host.readFile file)
  match decodeText? bytes with
  | none => throw .notText
  | some source =>
    match assemble source with
    | .ok image => return image
    | .error errors => throw (.assembly errors)

/-- The image of a program: a binary file as it is, a source file assembled. -/
def imageOf (file : String) (minimal : Bool) : ExceptT Failure m (List UInt8) :=
  match Path.extension? file with
  | some "bin" => do
    unless minimal do Host.print (targetLine "Loading" file)
    attempt .file (Host.readFile file)
  | some "asm" => do
    unless minimal do Host.print (targetLine "Assembling" file)
    assembleFile file
  | some _ => throw .unknownExtension
  | none => throw .noExtension

/-- The configuration of a machine, with what the environment sets. -/
def configOf (features : Features) (settings : Settings) : RunConfig :=
  { budget := (settings.batchBudget.map UInt64.ofNat).getD RunConfig.default.budget
    interval := settings.checkInterval.getD RunConfig.default.interval
    features }

/-- A machine about to run an image. -/
def prepare (image : List UInt8) (options : RunOptions) (settings : Settings) (entropy : UInt64) :
    Except LoadError ConsoleMachine :=
  let keys := options.inputs.foldl (fun k id => k.set id true) (KeyState.released .empty)
  Machine.boot image Framebuffer.blank keys ⟨0, 0⟩ (Stream.ofSeed (options.seed.getD entropy))
    (configOf options.features settings)

/-- Runs a program and prints the state in which it stops. -/
def runCommand (settings : Settings) (file : String) (options : RunOptions) :
    ExceptT Failure m Unit := do
  let image ← imageOf file options.minimal
  let epoch ← Host.millis
  let machine ← attempt .load (return prepare image options settings (← Host.entropy))
  unless options.minimal do
    Host.print (progressLine "Running" "emitted binary")
    if options.cycles.isNone && options.millis.isNone then
      Host.print (progressLine "Help" "press CTRL+C to exit")
  let machine ← match options.cycles with
    | some n => runCycles epoch n machine
    | none => drive epoch (options.millis.map UInt64.ofNat) UInt64.size machine
  if let some path := options.screenshot then
    attempt .file (Host.writeFile path machine.screen.ppm)
    unless options.minimal do Host.print (targetLine "Saved" path)
  unless options.minimal do Host.print (targetLine "Completed" file)
  (stateLines machine.cpu).forM (Host.print ·)

/-- Assembles a source file into a binary file. -/
def compileCommand (file : String) (dest : Option String) : ExceptT Failure m Unit := do
  Host.print (targetLine "Assembling" file)
  let image ← assembleFile file
  let dest := dest.getD (Path.withExtension file "bin")
  attempt .file (Host.writeFile dest image)
  Host.print (progressLine "Finished" ("emit binary (" ++ toString image.length ++ " bytes)"))
  Host.print (targetLine "Saved" dest)

/-- Assembles one file and reports what is wrong with it; the answer is whether it failed. -/
def checkFile (file : String) : m Bool := do
  Host.print (targetLine "Checking" file)
  match ← (assembleFile file).run with
  | .ok _ => return false
  | .error e =>
    Host.report e.drawing
    return true

/-- How many files were checked, and how many of them failed. -/
structure Tally where
  checked : Nat
  failed : Nat

/-- Checks what a pattern has found. A directory that cannot be listed ends the whole check. -/
def checkFinding (tally : Tally) : Finding → ExceptT Failure m Tally
  | .error e => throw (.walk e)
  | .ok file => do
    let failed ← (checkFile file : m Bool)
    return ⟨tally.checked + 1, tally.failed + if failed then 1 else 0⟩

def checkPattern (tally : Tally) (pattern : String) : ExceptT Failure m Tally :=
  match PathPattern.parse pattern with
  | .error e => throw (.pattern e)
  | .ok p => do
    let findings ← (p.expand : m (List Finding))
    if findings.isEmpty then throw (.noMatch pattern)
    findings.foldlM checkFinding tally

/-- Checks the files of some patterns, one pattern after the other. -/
def checkCommand (patterns : List String) : ExceptT Failure m Unit := do
  let tally ← patterns.foldlM checkPattern ⟨0, 0⟩
  if tally.failed = 0 then Host.print (progressLine "Success" "no errors found!")
  else throw (.failedFiles tally.failed tally.checked)

def Invocation.execute (settings : Settings) : Invocation → ExceptT Failure m Unit
  | .banner => bannerLines.forM (Host.print ·)
  | .run file options => runCommand settings file options
  | .compile file dest => compileCommand file dest
  | .check patterns => checkCommand patterns

/-- The program: 0 for success, 1 for a failed command, 2 for words that make no sense. -/
def commandLine (words : List String) : m UInt32 := do
  match Invocation.parse words with
  | .error .help => return 0
  | .error .version =>
    Host.print ("consolite " ++ version)
    return 0
  | .error .usage => return 2
  | .ok invocation =>
    let batch ← Host.envVar Settings.batchVariable
    let interval ← Host.envVar Settings.intervalVariable
    match ← (invocation.execute (Settings.ofVariables batch interval)).run with
    | .ok () => return 0
    | .error e =>
      Host.report e.drawing
      return 1

end
end Console16
