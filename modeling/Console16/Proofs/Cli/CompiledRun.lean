import Console16.Proofs.Asm.Image
import Console16.Proofs.Cli.CountedRun

/-!
# Console16.Proofs.Cli.CompiledRun

A source file is assembled and run at once, or it is compiled to a binary file and that is run. Both
ways the machine gets the same image, so a program without `TIME` ends the same; and a source file
that cannot be assembled fails the same both ways, with no file touched.

* `World.exec_compile`: a compilation.
* `World.exec_run_of_error`: a run of a source file that cannot be assembled.
* `World.sameExit_of_one_image`: two minimal runs of one image.
* `exists_prepared`: a machine can be prepared from every assembled image.
* `source_runs_as_its_binary`: the two ways come to the same.
-/

namespace Console16

namespace World

variable {u v w : World} {file dest : String} {image : List UInt8} {e : Failure}

/-! ## Images -/

theorem assembled_congr (h : u.read file = v.read file) : u.assembled file = v.assembled file := by
  rw [assembled, textOf, h, assembled, textOf]

theorem assembled_say (w : World) (lines : List String) (headlines : List (List String))
    (file : String) : (w.say lines headlines).assembled file = w.assembled file :=
  assembled_congr (read_congr file (files_say ..))

theorem exists_read_of_textOf {source : String} (h : w.textOf file = .ok source) :
    ∃ bytes, w.read file = .ok bytes := by
  unfold textOf at h
  cases hread : w.read file with
  | error e =>
    rw [hread] at h
    cases h
  | ok bytes => exact ⟨bytes, rfl⟩

theorem perform_imageOf_source (h : Path.extension? file = some "asm") (minimal : Bool)
    (w : World) :
    w.perform (imageOf file minimal) =
      (w.assembled file, w.say (if minimal then [] else [targetLine "Assembling" file]) []) := by
  cases minimal with
  | true =>
    have himage : (imageOf file true : Task _) = assembleFile file := by
      unfold imageOf
      rw [h]
      rfl
    rw [himage, perform_assembleFile]
    rfl
  | false =>
    have himage : (imageOf file false : Task _) =
        (Host.print (targetLine "Assembling" file) >>= fun _ => assembleFile file) := by
      unfold imageOf
      rw [h]
      rfl
    rw [himage, perform_bind, perform_print]
    simp only
    rw [perform_assembleFile, assembled_say]
    rfl

theorem perform_imageOf_binary (h : Path.extension? file = some "bin")
    (hread : w.read file = .ok image) : w.perform (imageOf file true) = (.ok image, w) := by
  have himage : (imageOf file true : Task _) = attempt .file (Host.readFile file) := by
    unfold imageOf
    rw [h]
    rfl
  have hrun : ((Host.readFile file : StateM World _).run w).run = (w.read file, w) := rfl
  rw [himage, perform_attempt, hrun, hread]

/-! ## Compilations -/

theorem write_say (w : World) (lines : List String) (headlines : List (List String))
    (path : String) (bytes : List UInt8) :
    (w.say lines headlines).write path bytes =
      (w.write path bytes).map (·.say lines headlines) := by
  rcases write_congr (files_say w lines headlines) path bytes with
    ⟨e, hsaid, he⟩ | ⟨files, hsaid, hok⟩
  · rw [hsaid, he]
    rfl
  · rw [hsaid, hok]
    rfl

/-- A compilation writes the image of a source file in order, and nothing else. -/
theorem exec_compile {words : List String}
    (hwords : Invocation.parse words = .ok (.compile file (some dest))) (w : World) :
    w.exec words =
      match w.assembled file with
      | .error e => (1, w.say [targetLine "Assembling" file] e.drawing)
      | .ok image =>
        match w.write dest image with
        | .error refusal =>
          (1, w.say [targetLine "Assembling" file] (Failure.file refusal).drawing)
        | .ok after =>
          (0, after.say [targetLine "Assembling" file,
            progressLine "Finished" ("emit binary (" ++ toString image.length ++ " bytes)"),
            targetLine "Saved" dest] []) := by
  rw [exec_eq hwords, Invocation.execute, compileCommand, perform_bind, perform_print]
  simp only
  rw [perform_bind, perform_assembleFile, assembled_say]
  cases w.assembled file with
  | error e => rfl
  | ok image =>
    simp only [Option.getD_some]
    rw [perform_bind, perform_writeFile, write_say]
    cases w.write dest image with
    | error refusal => rfl
    | ok after =>
      simp only [Except.map]
      rw [perform_bind, perform_print]
      simp only
      rw [perform_print, exitOf_ok, say_say, say_say]
      rfl

/-! ## Two ways to run -/

theorem exec_run_of_error {words : List String} {options : RunOptions}
    (hwords : Invocation.parse words = .ok (.run file options))
    (hext : Path.extension? file = some "asm") (hassembled : w.assembled file = .error e) :
    w.exec words =
      (1, w.say (if options.minimal then [] else [targetLine "Assembling" file]) e.drawing) := by
  rw [exec_eq hwords, Invocation.execute, runCommand, perform_bind, perform_imageOf_source hext,
    hassembled]
  simp only
  rw [exitOf_error, say_say, List.append_nil]
  rfl

/-- An image that is assembled in one system and read from a file in the other. -/
theorem sameExit_of_one_image {sourceFile binaryFile : String} {runSource runBinary : List String}
    {options : RunOptions} {n : Nat} {machine : ConsoleMachine}
    (hsource : Path.extension? sourceFile = some "asm")
    (hbinary : Path.extension? binaryFile = some "bin")
    (hrunSource : Invocation.parse runSource = .ok (.run sourceFile options))
    (hrunBinary : Invocation.parse runBinary = .ok (.run binaryFile options))
    (hminimal : options.minimal = true) (hcycles : options.cycles = some n)
    (huv : u.SameButClock v) (hassembled : u.assembled sourceFile = .ok image)
    (hread : v.read binaryFile = .ok image)
    (hprepare : ∀ entropy, prepare image options u.settings entropy = .ok machine)
    (huntimed : machine.Throughout Machine.Untimed n) :
    SameExit (u.exec runSource) (v.exec runBinary) := by
  have himage : u.perform (imageOf sourceFile true) = (.ok image, u) := by
    rw [perform_imageOf_source hsource, hassembled]
    rfl
  have himage' : v.perform (imageOf binaryFile true) = (.ok image, v) :=
    perform_imageOf_binary hbinary hread
  have hprepare' : ∀ entropy, prepare image options v.settings entropy = .ok machine := by
    rw [← huv.settings]
    exact hprepare
  have hends := exec_run hrunSource hminimal hcycles himage hprepare huntimed
  have hends' := exec_run hrunBinary hminimal hcycles himage' hprepare' huntimed
  exact hends.symm.trans ((sameExit_concluded huv (.refl _) _).trans hends')

end World

/-- An assembled image is never too large for the memory. -/
theorem exists_prepared {source : String} {image : List UInt8} (h : assemble source = .ok image)
    {options : RunOptions} {seed : UInt64} (hseed : options.seed = some seed)
    (settings : Settings) :
    ∃ machine, ∀ entropy, prepare image options settings entropy = .ok machine := by
  obtain ⟨l, -, -, rfl, -, hfit⟩ := Listing.length_of_assemble h
  obtain ⟨memory, hload, -⟩ := Memory.exists_load hfit
  obtain ⟨machine, hboot, -⟩ := boot_of_load hload Framebuffer.blank
    (options.inputs.foldl (fun k id => k.set id true) (KeyState.released .empty))
    (⟨0, 0⟩ : ManualClock) (.ofSeed seed) (configOf options.features settings)
  refine ⟨machine, fun entropy => ?_⟩
  rw [prepare, hseed]
  exact hboot

/-- A source file that is text and assembles is compiled to a file that holds the image and is the
only one that changes, unless the system refuses to write there. A machine can always be prepared
from the image; and if it executes no `TIME` among its first `n` instructions, minimal runs of `n`
instructions of the source file and of the binary file come to the same exit code, the same files,
the same printed lines and the same reported headlines, whatever the time. A source file that cannot
be assembled makes a compilation and every run of it fail with the same headlines, and no file
changes. -/
theorem source_runs_as_its_binary {sourceFile binaryFile : String}
    {toCompile runSource runBinary : List String} {options : RunOptions} {n : Nat} {seed : UInt64}
    (hsource : Path.extension? sourceFile = some "asm")
    (hbinary : Path.extension? binaryFile = some "bin")
    (hcompile : Invocation.parse toCompile = .ok (.compile sourceFile (some binaryFile)))
    (hrunSource : Invocation.parse runSource = .ok (.run sourceFile options))
    (hrunBinary : Invocation.parse runBinary = .ok (.run binaryFile options))
    (hminimal : options.minimal = true) (hcycles : options.cycles = some n)
    (hseed : options.seed = some seed) (w : World) :
    (∀ source image, w.textOf sourceFile = .ok source → assemble source = .ok image →
      (∀ place, w.TakesFile binaryFile place →
        ∃ after, w.exec toCompile = (0, after) ∧ after.read binaryFile = .ok image ∧
          (∀ other, after.files.lookup other =
            if other = place then some image else w.files.lookup other) ∧
          ∀ u v : World, u.files = after.files → u.SameButClock v →
            ∃ machine, (∀ entropy, prepare image options u.settings entropy = .ok machine) ∧
              (machine.Throughout Machine.Untimed n →
                (u.exec runSource).1 = (v.exec runBinary).1 ∧
                (u.exec runSource).2.SameButClock (v.exec runBinary).2)) ∧
      ((∀ place, ¬w.TakesFile binaryFile place) → ∃ refusal : FileError, w.exec toCompile =
        (1, w.say [targetLine "Assembling" sourceFile] (Failure.file refusal).drawing))) ∧
    (∀ e, w.assembled sourceFile = .error e →
      w.exec toCompile = (1, w.say [targetLine "Assembling" sourceFile] e.drawing) ∧
      ∀ words chosen, Invocation.parse words = .ok (.run sourceFile chosen) →
        w.exec words = (1, w.say
          (if chosen.minimal then [] else [targetLine "Assembling" sourceFile]) e.drawing)) := by
  have hexec := World.exec_compile hcompile w
  constructor
  · intro source image htext himage
    have hassembled : w.assembled sourceFile = .ok image :=
      World.assembled_eq_ok_iff.2 ⟨source, htext, himage⟩
    rw [hassembled] at hexec
    constructor
    · intro place hdest
      simp only [hdest.write] at hexec
      refine ⟨_, hexec, hdest.read image, fun other => World.lookup_put w place other image,
        fun u v hu huv => ?_⟩
      obtain ⟨bytes, hbytes⟩ := World.exists_read_of_textOf htext
      have hkept : u.read sourceFile = w.read sourceFile := by
        rw [World.read_congr sourceFile hu, hbytes]
        exact hdest.read_other image hbytes hbinary hsource (by decide)
      have hread : v.read binaryFile = .ok image := by
        rw [World.read_congr binaryFile (huv.files.symm.trans hu)]
        exact hdest.read image
      obtain ⟨machine, hprepare⟩ := exists_prepared himage hseed u.settings
      refine ⟨machine, hprepare, fun huntimed => ?_⟩
      exact World.sameExit_of_one_image hsource hbinary hrunSource hrunBinary hminimal hcycles huv
        ((World.assembled_congr hkept).trans hassembled) hread hprepare huntimed
    · intro hnone
      obtain ⟨refusal, hwrite⟩ := World.exists_error_of_not_takesFile hbinary hnone image
      simp only [hwrite] at hexec
      exact ⟨refusal, hexec⟩
  · intro e he
    rw [he] at hexec
    exact ⟨hexec, fun words chosen hwords => World.exec_run_of_error hwords hsource he⟩

/-- A file with `TIMERST` and `JMPI 0x0`. -/
def resettingLoop : World :=
  .start [(["a.asm"], [0x54, 0x49, 0x4D, 0x45, 0x52, 0x53, 0x54, 0x0A, 0x4A, 0x4D, 0x50, 0x49, 0x20,
    0x30, 0x78, 0x30])] []

/-- Three instructions of a strict machine with one key held down; the screen is saved. -/
def savedRun : RunOptions := ⟨some 3, none, some "s.ppm", [1], ⟨true⟩, some 7, true⟩

theorem exists_resetting_machine :
    ∃ m, prepare [0x1b, 0, 0, 0, 0x31, 0, 0, 0] savedRun ⟨none, none⟩ 0 = .ok m ∧
      ∀ j < 3, (m.run j).machine.current.timeDest? = none :=
  ⟨_, rfl, by decide⟩

/-- The timer is started over and over, but never read. -/
theorem source_runs_as_its_binary_of_resetting_loop :
    ∃ after, resettingLoop.exec ["compile", "a.asm", "a.bin"] = (0, after) ∧
      after.read "a.bin" = .ok [0x1b, 0, 0, 0, 0x31, 0, 0, 0] ∧
      ∀ u v : World, u.files = after.files → u.environment = [] → u.SameButClock v →
        World.SameExit
          (u.exec ["run", "a.asm", "--minimal", "--cycles", "3", "--seed", "7", "--input", "1",
            "--features", "strict", "--screenshot", "s.ppm"])
          (v.exec ["run", "a.bin", "--minimal", "--cycles", "3", "--seed", "7", "--input", "1",
            "--features", "strict", "--screenshot", "s.ppm"]) := by
  have hcompile : Invocation.parse ["compile", "a.asm", "a.bin"] =
      .ok (.compile "a.asm" (some "a.bin")) := by decide +kernel
  have hrunSource : Invocation.parse ["run", "a.asm", "--minimal", "--cycles", "3", "--seed", "7",
      "--input", "1", "--features", "strict", "--screenshot", "s.ppm"] =
      .ok (.run "a.asm" savedRun) := by decide +kernel
  have hrunBinary : Invocation.parse ["run", "a.bin", "--minimal", "--cycles", "3", "--seed", "7",
      "--input", "1", "--features", "strict", "--screenshot", "s.ppm"] =
      .ok (.run "a.bin" savedRun) := by decide +kernel
  have htext : resettingLoop.textOf "a.asm" = .ok "TIMERST\nJMPI 0x0" := by decide +kernel
  have himage : assemble "TIMERST\nJMPI 0x0" = .ok [0x1b, 0, 0, 0, 0x31, 0, 0, 0] := by
    decide +kernel
  have hdest : resettingLoop.TakesFile "a.bin" (.here ["a.bin"]) :=
    ⟨by decide +kernel, by decide +kernel, .inl (by decide +kernel)⟩
  obtain ⟨after, hexec, hread, -, hruns⟩ :=
    ((source_runs_as_its_binary (by decide +kernel) (by decide +kernel) hcompile hrunSource
      hrunBinary rfl rfl rfl resettingLoop).1 _ _ htext himage).1 _ hdest
  refine ⟨after, hexec, hread, fun u v hu henv huv => ?_⟩
  obtain ⟨machine, hprepare, hsame⟩ := hruns u v hu huv
  obtain ⟨m, hm, hcurrent⟩ := exists_resetting_machine
  have hsettings : u.settings = ⟨none, none⟩ := by
    rw [World.settings, henv]
    rfl
  have hmachine := hprepare 0
  rw [hsettings, hm] at hmachine
  cases hmachine
  refine hsame fun j hj p hp dest htime => ?_
  have hnone := hcurrent j hj
  rw [hp, Outcome.machine, htime] at hnone
  cases hnone

end Console16
