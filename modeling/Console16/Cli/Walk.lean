import Console16.Cli.Host
import Console16.Cli.Path
import Console16.Cli.Pattern

/-!
# Console16.Cli.Walk

The paths that a pattern matches, in the order in which they are found: entries of a directory by
name, a directory before what is in it. A component without wildcards is looked up and not listed. A
directory that has to be listed and cannot be is an error, which stands where its entries would.

* `PathPattern.expand`: all that a pattern finds.
-/

namespace Console16

/-- Directories are entered this deep; no path of a file system is longer. -/
def maxDepth : Nat := 4096

/-- A directory that cannot be listed. -/
structure WalkError where
  dir : String
  reason : FileError
  deriving DecidableEq, Repr

def WalkError.message (e : WalkError) : String :=
  "attempting to read `" ++ e.dir ++ "` resulted in an error: " ++ e.reason.message

/-- What a walk comes upon: a path that matches, or a directory that cannot be listed. -/
abbrev Finding : Type :=
  Except WalkError String

section
variable {m : Type → Type} [Monad m] [Host m]

/-- An entry of a directory; entries of the current directory are named without it. -/
def entryPath (dir entry : String) : String :=
  if Path.isHere dir then entry else Path.join dir entry

def sortNames (names : List String) : List String :=
  names.mergeSort fun a b => !decide (b < a)

/-- Whether a looked-up name is there: `.` and `..` are in every directory. -/
def present (dir name path : String) : m Bool :=
  if name == "." || name == ".." then Host.isDir dir else Host.pathExists path

/-- A path that has met the whole pattern, unless it has to be a directory and is none. -/
def found (dirsOnly : Bool) (path : String) : m (List Finding) := do
  if dirsOnly then
    if ← Host.isDir path then return [.ok path] else return []
  else return [.ok path]

mutual

/-- The matches of some components inside a directory. -/
def descend (dirsOnly : Bool) : Nat → List PatternPart → String → m (List Finding)
  | 0, _, _ => return []
  | _ + 1, [], _ => return []
  | fuel + 1, part :: rest, dir =>
    match part with
    | .name text => do
      let path := entryPath dir text
      if ← present dir text path then arrive dirsOnly fuel rest path else return []
    | part => do
      if ← Host.isDir dir then
        match ← Host.entries dir with
        | .error e => return [.error ⟨dir, e⟩]
        | .ok names =>
          let dots := ["..", "."].filter fun dot => part.startsWithDot && part.accepts dot
          let special ← dots.flatMapM fun dot => arrive dirsOnly fuel rest (Path.join dir dot)
          let inside ← (sortNames names).flatMapM fun name =>
            meet dirsOnly fuel part rest name (entryPath dir name)
          return special ++ inside
      else return []
termination_by structural fuel => fuel

/-- The matches below a path that has met a component; the path itself if it was the last one. -/
def arrive (dirsOnly : Bool) : Nat → List PatternPart → String → m (List Finding)
  | 0, _, _ => return []
  | _ + 1, [], path => found dirsOnly path
  | fuel + 1, part :: rest, path => descend dirsOnly fuel (part :: rest) path
termination_by structural fuel => fuel

/-- The matches at and below an entry, from the component it has to meet on. An entry that meets
any number of directories goes on with the next other component, and so does everything in it. -/
def meet (dirsOnly : Bool) : Nat → PatternPart → List PatternPart → String → String →
    m (List Finding)
  | 0, _, _, _, _ => return []
  | fuel + 1, .deep, .deep :: rest, name, path => meet dirsOnly fuel .deep rest name path
  | fuel + 1, .deep, [], _, path => do
    if ← Host.isDir path then return .ok path :: (← descend dirsOnly fuel [.deep] path)
    else return []
  | fuel + 1, .deep, part :: rest, name, path => do
    let here ← meet dirsOnly fuel part rest name path
    if ← Host.isDir path then
      return here ++ (← descend dirsOnly fuel (.deep :: part :: rest) path)
    else return here
  | fuel + 1, part, rest, name, path =>
    if part.accepts name then arrive dirsOnly fuel rest path else return []
termination_by structural fuel => fuel

end

def PathPattern.expand (p : PathPattern) : m (List Finding) :=
  descend p.dirsOnly (3 * (maxDepth + p.parts.length)) p.parts p.root

end
end Console16
