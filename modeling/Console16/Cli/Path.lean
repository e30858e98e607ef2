import Console16.Text.Split

/-!
# Console16.Cli.Path

File paths as text: components between slashes, the name of a file and its extension. Empty
components and `.` at the end of a path do not count as its name.

* `Path.extension?`: what follows the last dot of the name, unless the name starts with that dot.
* `Path.withExtension`: the path with another extension, or with one more if it had none.
-/

namespace Console16.Path

/-- The components of a path, empty ones included. -/
def components (path : String) : List (List Char) :=
  Text.splitOn '/' path.toList

/-- The components up to the name, last first. -/
def named (path : String) : List (List Char) :=
  (components path).reverse.dropWhile fun c => c.isEmpty || c == ['.']

/-- A name cut at its last dot. A name has no extension if it has no dot or only one in front. -/
def splitName (name : List Char) : List Char × Option (List Char) :=
  let after := (name.reverse.takeWhile (· != '.')).reverse
  let before := ((name.reverse.dropWhile (· != '.')).drop 1).reverse
  if before.isEmpty then (name, none) else (before, some after)

def fileName? (path : String) : Option (List Char) :=
  match named path with
  | [] => none
  | name :: _ => if name == ['.', '.'] then none else some name

def extension? (path : String) : Option String :=
  (fileName? path).bind fun name => (splitName name).2.map String.ofList

/-- A name with a given extension in place of its own. Where the own extension follows two dots,
what is left without it is the directory above, which takes no extension. -/
def renamed (name ext : List Char) : List Char :=
  match splitName name with
  | (['.'], some _) => ['.', '.']
  | (stem, _) => stem ++ '.' :: ext

/-- The path with a given extension in place of its own. A path without a name stays as it is. -/
def withExtension (path ext : String) : String :=
  match fileName? path with
  | none => path
  | some name =>
    let dirs := ((named path).drop 1).reverse
    String.ofList (['/'].intercalate (dirs.concat (renamed name ext.toList)))

/-- The path of an entry of a directory. -/
def join (dir entry : String) : String :=
  if dir.isEmpty || dir.endsWith "/" then dir ++ entry else dir ++ "/" ++ entry

/-- Whether a path spells the current directory. -/
def isHere (path : String) : Bool :=
  match components path with
  | ['.'] :: rest => rest.all fun c => c.isEmpty || c == ['.']
  | _ => false

end Console16.Path
