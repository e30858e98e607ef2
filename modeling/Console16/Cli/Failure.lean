import Console16.Asm.Error
import Console16.Cli.Walk
import Console16.Machine.Step
import Console16.Text.Wrap

/-!
# Console16.Cli.Failure

Why a command failed, and the headlines it reports.
-/

namespace Console16

inductive Failure where
  | file (e : FileError)
  /-- The content of a source file is no UTF-8 text. -/
  | notText
  | assembly (errors : List AsmError)
  | load (e : LoadError)
  | fault (f : Fault)
  | unknownExtension
  | noExtension
  | pattern (e : PatternError)
  /-- A directory on the way of a pattern cannot be listed. -/
  | walk (e : WalkError)
  /-- A pattern matches no path. -/
  | noMatch (text : String)
  /-- Some of the checked files do not assemble. -/
  | failedFiles (failed checked : Nat)
  deriving DecidableEq

/-- The headlines of a failure: one, or for a failed assembly one over all errors and one for each. -/
def Failure.headlines : Failure → List String
  | .file e => [e.message]
  | .notText => ["stream did not contain valid UTF-8"]
  | .assembly errors => AsmError.summary errors :: errors.map AsmError.message
  | .load e => [e.message]
  | .fault f => [f.message]
  | .unknownExtension => ["File has unknown extension. Exiting..."]
  | .noExtension => ["File has no extension. Exiting..."]
  | .pattern e => [e.message]
  | .walk e => [e.message]
  | .noMatch text => ["No files match '" ++ text ++ "'. Exiting..."]
  | .failedFiles failed checked =>
    [toString failed ++ " of " ++ toString checked ++ " file(s) failed to assemble"]

/-- Columns of a line of a headline. -/
def headlineWidth : Nat := 74

/-- The headlines of a failure in the lines they are drawn in. -/
def Failure.drawing (e : Failure) : List (List String) :=
  e.headlines.map (Text.wrap headlineWidth)

end Console16
