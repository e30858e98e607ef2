import Console16.Cli.Host
import Console16.Cli.Path
import Console16.Text.Width

/-!
# Console16.Cli.World

A system that is a value: a table of files, an environment, a clock and everything that was
printed. Commands run on it as they run on a real one, and what they did can be looked at. A
directory is there when a file is in it; the working directory, those around it and those in the
root are always there.

* `World.lookup_put`: a file that was written reads back, and no other file changes.
-/

namespace Console16

/-- Where the names of a place start. -/
inductive Anchor where
  /-- So many directories above the working directory. -/
  | above (levels : Nat)
  | root
  deriving DecidableEq, Repr

/-- A place for a file or a directory, given by the names on the way to it. -/
structure Place where
  anchor : Anchor
  names : List String
  deriving DecidableEq, Repr

/-- Files that keep nothing. -/
inductive Device where
  /-- Empty, and takes whatever is written to it. -/
  | null
  /-- Endless, and has no room for anything. -/
  | full
  deriving DecidableEq, Repr

namespace Device

def all : List Device :=
  [.null, .full]

def name : Device → String
  | .null => "null"
  | .full => "full"

def read : Device → Except FileError (List UInt8)
  | .null => .ok []
  | .full => .error .outOfMemory

def write : Device → List UInt8 → Except FileError Unit
  | .full, _ :: _ => .error .noSpace
  | _, _ => .ok ()

end Device

namespace Place

/-- A place in the working directory. -/
def here (names : List String) : Place :=
  ⟨.above 0, names⟩

/-- The directory that holds a place. The root holds itself. -/
def parent (p : Place) : Place :=
  match p with
  | ⟨.above n, []⟩ => ⟨.above (n + 1), []⟩
  | ⟨a, names⟩ => ⟨a, names.dropLast⟩

def child (p : Place) (name : String) : Place :=
  ⟨p.anchor, p.names ++ [name]⟩

/-- Whether a place is inside another one or is that place. -/
def within (p dir : Place) : Bool :=
  p.anchor = dir.anchor && dir.names.isPrefixOf p.names

/-- The directories in the root. -/
def rootDirs : List String :=
  ["bin", "boot", "dev", "etc", "home", "lib", "media", "mnt", "opt", "proc", "root", "run",
   "sbin", "srv", "sys", "tmp", "usr", "var"]

def ofDevice (d : Device) : Place :=
  ⟨.root, ["dev", d.name]⟩

/-- Directories that are there even with no file in them. -/
def standing (p : Place) : Bool :=
  p.names.isEmpty || rootDirs.any fun name => p = ⟨.root, [name]⟩

/-- Places at which there is something from the start. -/
def fixtures : List Place :=
  Device.all.map ofDevice ++ rootDirs.map fun name => ⟨.root, [name]⟩

end Place

structure World where
  files : List (Place × List UInt8)
  /-- Directories that cannot be listed, each with the reason. -/
  unlisted : List (Place × FileError)
  /-- Environment variables with their values. -/
  environment : List (String × String)
  /-- Milliseconds that have passed while waiting. -/
  waited : UInt64
  /-- How often the clock was read. -/
  readings : Nat
  /-- Printed lines, last first. -/
  printed : List String
  /-- Reported headlines in their lines, last first. -/
  reported : List (List String)

namespace World

/-- What is at the end of a path. -/
inductive Node where
  | file (bytes : List UInt8)
  | directory
  | device (d : Device)

/-- Readings of the clock in one millisecond. -/
def readingsPerMilli : Nat := 100

/-- A name has at most so many bytes. -/
def nameLimit : Nat := 255

/-- A path has fewer bytes than this. -/
def pathLimit : Nat := 4096

/-- A system with some files in its working directory. Every directory can be listed. -/
def start (files : List (List String × List UInt8)) (environment : List (String × String)) :
    World :=
  ⟨files.map fun entry => (.here entry.1, entry.2), [], environment, 0, 0, [], []⟩

/-- The files in the working directory and below it. -/
def localFiles (w : World) : List (List String × List UInt8) :=
  w.files.filterMap fun entry =>
    if entry.1.anchor = .above 0 then some (entry.1.names, entry.2) else none

def lookup (w : World) (place : Place) : Option Node :=
  match Device.all.find? fun d => place = .ofDevice d with
  | some d => some (.device d)
  | none =>
    match w.files.lookup place with
    | some bytes => some (.file bytes)
    | none =>
      if place.standing || w.files.any fun entry => entry.1.within place then some .directory
      else none

/-- Follows one component: what is followed has to be a directory. -/
def follow (w : World) (place : Place) (component : List Char) : Except FileError Place :=
  match w.lookup place with
  | none => .error .notFound
  | some (.file _) | some (.device _) => .error .notADirectory
  | some .directory =>
    if component = [] || component = ['.'] then .ok place
    else if component = ['.', '.'] then .ok place.parent
    else if nameLimit < Text.width component then .error .nameTooLong
    else .ok (place.child (String.ofList component))

/-- Follows some components, from the root if the path they are of starts there. -/
def walk (w : World) (path : String) (components : List (List Char)) : Except FileError Place :=
  if path.isEmpty then .error .notFound
  else if pathLimit ≤ Text.width path.toList then .error .nameTooLong
  else components.foldlM w.follow (if path.startsWith "/" then ⟨.root, []⟩ else .here [])

/-- The place a path leads to; nothing has to be there. -/
def resolve (w : World) (path : String) : Except FileError Place :=
  w.walk path (Path.components path)

def node? (w : World) (path : String) : Option Node :=
  match w.resolve path with
  | .ok place => w.lookup place
  | .error _ => none

def isDirectory (w : World) (path : String) : Bool :=
  match w.node? path with
  | some .directory => true
  | _ => false

def read (w : World) (path : String) : Except FileError (List UInt8) :=
  match w.resolve path with
  | .error e => .error e
  | .ok place =>
    match w.lookup place with
    | some (.file bytes) => .ok bytes
    | some (.device d) => d.read
    | some .directory => .error .isADirectory
    | none => .error .notFound

/-- Gives a file a content, in place of any it had. -/
def put (w : World) (place : Place) (bytes : List UInt8) : World :=
  { w with files := (place, bytes) :: w.files.filter fun entry => entry.1 != place }

/-- The components of a path before its name, and `.` for the directory they lead to. -/
def holder (path : String) : List (List Char) :=
  (((Path.components path).reverse.dropWhile List.isEmpty).drop 1).reverse ++ [['.']]

/-- Writes a file. A path that ends in a slash cannot name one, so its name is not looked up. -/
def write (w : World) (path : String) (bytes : List UInt8) : Except FileError World :=
  if path.endsWith "/" then
    match w.walk path (holder path) with
    | .error e => .error e
    | .ok _ => .error .isADirectory
  else
    match w.resolve path with
    | .error e => .error e
    | .ok place =>
      match w.lookup place with
      | some .directory => .error .isADirectory
      | some (.device d) => (d.write bytes).map fun _ => w
      | some (.file _) | none => .ok (w.put place bytes)

/-- The names of what is in a place. -/
def namesIn (w : World) (place : Place) : List String :=
  ((Place.fixtures ++ w.files.map (·.1)).filterMap fun entry =>
    if entry.within place then (entry.names.drop place.names.length).head? else none).eraseDups

def entries (w : World) (path : String) : Except FileError (List String) :=
  match w.resolve path with
  | .error e => .error e
  | .ok place =>
    match w.lookup place with
    | some .directory =>
      match w.unlisted.lookup place with
      | some e => .error e
      | none => .ok (w.namesIn place)
    | some (.file _) | some (.device _) => .error .notADirectory
    | none => .error .notFound

def now (w : World) : UInt64 :=
  w.waited + UInt64.ofNat (w.readings / readingsPerMilli)

def output (w : World) : String :=
  String.join (w.printed.reverse.map (· ++ "\n"))

instance : Host (StateM World) where
  readFile path := do return (← get).read path
  writeFile path bytes := do
    match (← get).write path bytes with
    | .ok w => set w; return .ok ()
    | .error e => return .error e
  pathExists path := do return ((← get).node? path).isSome
  isDir path := do return (← get).isDirectory path
  entries path := do return (← get).entries path
  print line := modify fun w => { w with printed := line :: w.printed }
  report headlines := modify fun w => { w with reported := headlines.reverse ++ w.reported }
  envVar name := do return (← get).environment.lookup name
  millis := modifyGet fun w => (w.now, { w with readings := w.readings + 1 })
  sleep ms := modify fun w => { w with waited := w.waited + ms }
  entropy := return 0

theorem lookup_put (w : World) (place other : Place) (bytes : List UInt8) :
    (w.put place bytes).files.lookup other =
      if other = place then some bytes else w.files.lookup other := by
  by_cases h : other = place
  · subst h
    simp [put]
  · have hb : (other == place) = false := beq_eq_false_iff_ne.2 h
    simp only [put, List.lookup_cons, hb, h, if_false]
    induction w.files with
    | nil => rfl
    | cons entry files ih =>
      obtain ⟨name, content⟩ := entry
      by_cases he : name = place
      · subst he
        simpa [List.lookup_cons, hb] using ih
      · simp only [List.filter_cons, bne_iff_ne, ne_eq, he, not_false_iff, if_true,
          List.lookup_cons, ih]

end World
end Console16
