/-!
# Console16.Cli.Host

What the command line needs from the system it runs on: files, directories, text output, the
environment and the time.
-/

namespace Console16

inductive FileError where
  | notFound
  | permissionDenied
  | notADirectory
  | isADirectory
  /-- A name on the way, or the path itself, has too many bytes. -/
  | nameTooLong
  | noSpace
  | outOfMemory
  /-- Any other reason, in the words of the system. -/
  | other (text : String)
  deriving DecidableEq, Repr

def FileError.message : FileError → String
  | .notFound => "No such file or directory (os error 2)"
  | .permissionDenied => "Permission denied (os error 13)"
  | .notADirectory => "Not a directory (os error 20)"
  | .isADirectory => "Is a directory (os error 21)"
  | .nameTooLong => "File name too long (os error 36)"
  | .noSpace => "No space left on device (os error 28)"
  | .outOfMemory => "Cannot allocate memory (os error 12)"
  | .other text => text

class Host (m : Type → Type) where
  readFile : String → m (Except FileError (List UInt8))
  /-- Creates a file or replaces its content. -/
  writeFile : String → List UInt8 → m (Except FileError Unit)
  pathExists : String → m Bool
  isDir : String → m Bool
  /-- The names in a directory, in any order, if it can be listed. -/
  entries : String → m (Except FileError (List String))
  /-- Prints a line. -/
  print : String → m Unit
  /-- Reports a failure: its headlines, each in the lines it takes. -/
  report : List (List String) → m Unit
  /-- The value of an environment variable. -/
  envVar : String → m (Option String)
  /-- Milliseconds of a clock that only goes forward. -/
  millis : m UInt64
  /-- Waits for some milliseconds. -/
  sleep : UInt64 → m Unit
  /-- A seed that differs from run to run. -/
  entropy : m UInt64

/-- Steps that may fail run on the same system. -/
instance {m : Type → Type} [Monad m] [Host m] {E : Type} : Host (ExceptT E m) where
  readFile path := ExceptT.lift (Host.readFile path)
  writeFile path bytes := ExceptT.lift (Host.writeFile path bytes)
  pathExists path := ExceptT.lift (Host.pathExists path)
  isDir path := ExceptT.lift (Host.isDir path)
  entries path := ExceptT.lift (Host.entries path)
  print line := ExceptT.lift (Host.print line)
  report headlines := ExceptT.lift (Host.report headlines)
  envVar name := ExceptT.lift (Host.envVar name)
  millis := ExceptT.lift Host.millis
  sleep ms := ExceptT.lift (Host.sleep ms)
  entropy := ExceptT.lift Host.entropy

end Console16
