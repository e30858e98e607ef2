import Console16.Config.Features
import Console16.Text.Numeral

/-!
# Console16.Cli.Args

The words of a command line. Options may stand before or after the file names, `--name=value` is
`--name value`, and after `--` every word is a file name. Reading stops at the first word that is
wrong or that asks for help.

* `Arg.ofWord`: what a word looks like.
* `Invocation.parse`: what a command line asks for.
-/

namespace Console16

structure RunOptions where
  /-- Stop after so many instructions. -/
  cycles : Option Nat
  /-- Stop after so many milliseconds. -/
  millis : Option Nat
  /-- Save the screen here once stopped. -/
  screenshot : Option String
  /-- Inputs held down for the whole run. -/
  inputs : List UInt16
  features : Features
  seed : Option UInt64
  /-- Print the final state only. -/
  minimal : Bool
  deriving DecidableEq

def RunOptions.default : RunOptions := ⟨none, none, none, [], .none, none, false⟩

inductive Invocation where
  | banner
  | run (file : String) (options : RunOptions)
  | compile (file : String) (dest : Option String)
  | check (patterns : List String)
  deriving DecidableEq

/-- Why reading a command line stopped. -/
inductive Stop where
  | help
  | version
  /-- A word is wrong, or one is missing. -/
  | usage
  deriving DecidableEq, Repr

inductive Arg where
  /-- `--`. -/
  | escape
  | long (name : String) (value : Option String)
  | short (letters : List Char)
  | word (text : String)
  deriving DecidableEq, Repr

def Arg.ofWord (text : String) : Arg :=
  match text.toList with
  | ['-', '-'] => .escape
  | '-' :: '-' :: rest =>
    let name := String.ofList (rest.takeWhile (· != '='))
    match rest.dropWhile (· != '=') with
    | [] => .long name none
    | _ :: value => .long name (some (String.ofList value))
  | '-' :: c :: rest => .short (c :: rest)
  | _ => .word text

/-- A file name; it must not be empty. -/
def filePath (text : String) : Except Stop String :=
  if text.isEmpty then .error .usage else .ok text

def numberArg (limit : Nat) (text : String) : Except Stop Nat :=
  match Text.Numeral.parse? limit text.toList with
  | some n => .ok n
  | none => .error .usage

/-- An input id. Zero may carry a minus sign. -/
def inputArg (cs : List Char) : Except Stop UInt16 :=
  match cs with
  | '-' :: ds =>
    if !ds.isEmpty && ds.all (· == '0') then .ok 0 else .error .usage
  | cs =>
    match Text.Numeral.parse? 65536 cs with
    | some n => .ok (UInt16.ofNat n)
    | none => .error .usage

/-- What has been read of a command that runs a program. -/
structure RunArgs where
  file : Option String
  cycles : Option Nat
  millis : Option Nat
  screenshot : Option String
  inputs : List UInt16
  features : Option Features
  seed : Option UInt64
  minimal : Bool

namespace RunArgs

def empty : RunArgs := ⟨none, none, none, none, [], none, none, false⟩

/-- Takes a file name. There is one. -/
def addWord (a : RunArgs) (text : String) : Except Stop RunArgs :=
  match a.file with
  | some _ => .error .usage
  | none => (filePath text).map fun file => { a with file := some file }

/-- A value for a place that must still be free. -/
def once {α : Type} (old : Option α) (new : Except Stop α) : Except Stop (Option α) :=
  match old with
  | some _ => .error .usage
  | none => new.map some

/-- Takes an option that has a value; `none` if there is no such option. -/
def addOption? (a : RunArgs) (name : String) : Option (String → Except Stop RunArgs) :=
  match name with
  | "cycles" => some fun v =>
    (once a.cycles (numberArg UInt64.size v)).map fun cycles => { a with cycles }
  | "millis" => some fun v =>
    (once a.millis (numberArg UInt64.size v)).map fun millis => { a with millis }
  | "screenshot" => some fun v =>
    (once a.screenshot (filePath v)).map fun screenshot => { a with screenshot }
  | "input" => some fun v =>
    ((Text.splitOn ',' v.toList).mapM inputArg).map fun ids => { a with inputs := a.inputs ++ ids }
  | "features" => some fun v =>
    match Features.ofText v with
    | .ok features => (once a.features (.ok features)).map fun features => { a with features }
    | .error _ => .error .usage
  | "seed" => some fun v =>
    (once a.seed ((numberArg UInt64.size v).map UInt64.ofNat)).map fun seed => { a with seed }
  | _ => none

/-- Asks for minimal output, once. -/
def addMinimal (a : RunArgs) : Except Stop RunArgs :=
  if a.minimal then .error .usage else .ok { a with minimal := true }

def addFlag (a : RunArgs) (name : String) : Except Stop RunArgs :=
  match name with
  | "help" => .error .help
  | "minimal" => a.addMinimal
  | _ => .error .usage

/-- Takes one letter of a word such as `-m`. -/
def addLetter (a : RunArgs) (c : Char) : Except Stop RunArgs :=
  match c with
  | 'h' => .error .help
  | 'm' => a.addMinimal
  | _ => .error .usage

def read (a : RunArgs) : List String → Except Stop RunArgs
  | [] => .ok a
  | text :: rest =>
    match Arg.ofWord text with
    | .escape => rest.foldlM addWord a
    | .word w => do (← a.addWord w).read rest
    | .short letters => do (← letters.foldlM addLetter a).read rest
    | .long name value =>
      match a.addOption? name, value, rest with
      | some add, some v, rest => do (← add v).read rest
      | some add, none, v :: rest =>
        match Arg.ofWord v with
        | .word w => do (← add w).read rest
        | _ => .error .usage
      | some _, none, [] => .error .usage
      | none, none, rest => do (← a.addFlag name).read rest
      | none, some _, _ => .error .usage
termination_by words => words.length

/-- The finished command: a file name is there, and at most one of the two limits. -/
def finish (a : RunArgs) : Except Stop Invocation :=
  match a.file with
  | none => .error .usage
  | some file =>
    if a.cycles.isSome && a.millis.isSome then .error .usage
    else .ok (.run file ⟨a.cycles, a.millis, a.screenshot, a.inputs, a.features.getD .none, a.seed,
      a.minimal⟩)

end RunArgs

/-- File names of a command without options, in order. -/
def readWords (done : List String) : List String → Except Stop (List String)
  | [] => .ok done
  | text :: rest =>
    match Arg.ofWord text with
    | .escape => .ok (done ++ rest)
    | .word w => readWords (done ++ [w]) rest
    | .short ('h' :: _) => .error .help
    | .long "help" none => .error .help
    | _ => .error .usage

namespace Invocation

/-- At most `limit` words are expected before the one that is too many. -/
def atMost (limit : Nat) (words : List String) : Except Stop (List String) :=
  if words.length ≤ limit then .ok words else .error .usage

/-- Reads the names of a compilation: a file and perhaps a destination. Names are checked in the
order in which they stand, so a bad one in front of a request for help is an error. -/
def readCompile (done : List String) : List String → Except Stop (List String)
  | [] => .ok done
  | text :: rest =>
    match Arg.ofWord text with
    | .escape => do atMost 2 (done ++ (← rest.mapM filePath))
    | .word w => do readCompile (← atMost 2 (done ++ [← filePath w])) rest
    | .short ('h' :: _) => .error .help
    | .long "help" none => .error .help
    | _ => .error .usage

/-- The command with a given name, from the words after it. -/
def command? (name : String) (rest : List String) : Option (Except Stop Invocation) :=
  match name with
  | "run" => some (do (← RunArgs.empty.read rest).finish)
  | "compile" => some do
    match ← readCompile [] rest with
    | [file] => .ok (.compile file none)
    | [file, dest] => .ok (.compile file (some dest))
    | _ => .error .usage
  | "check" => some do
    match ← readWords [] rest with
    | [] => .error .usage
    | patterns => .ok (.check patterns)
  | "help" => some <|
    match rest with
    | [] => .error .help
    | [topic] => .error (if topic ∈ ["run", "compile", "check", "help"] then .help else .usage)
    | _ => .error .usage
  | _ => none

/-- A single file name means to run it; no word at all asks for the banner. -/
def ofFile : Option String → Invocation
  | none => .banner
  | some file => .run file .default

/-- Takes a word that is no command. There is one. -/
def addFile (file : Option String) (text : String) : Except Stop (Option String) :=
  match file with
  | some _ => .error .usage
  | none => (filePath text).map some

/-- Reads the words in front of a command. -/
def parseFrom (file : Option String) : List String → Except Stop Invocation
  | [] => .ok (ofFile file)
  | text :: rest =>
    match Arg.ofWord text with
    | .escape => do return ofFile (← rest.foldlM addFile file)
    | .word w =>
      match command? w rest with
      | some result => result
      | none => do parseFrom (← addFile file w) rest
    | .short ('h' :: _) => .error .help
    | .short ('V' :: _) => .error .version
    | .long "help" none => .error .help
    | .long "version" none => .error .version
    | _ => .error .usage

def parse (words : List String) : Except Stop Invocation :=
  parseFrom none words

end Invocation
end Console16
