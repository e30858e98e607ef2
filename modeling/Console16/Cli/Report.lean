import Console16.Cli.Host
import Console16.Machine.Cpu
import Console16.Text.Hex

/-!
# Console16.Cli.Report

The lines a command prints: what it is doing, and the state in which a program stopped.
-/

namespace Console16

def version : String := "0.1.0"

def logo : String :=
  "
                                ___ _ _
  ___ ___  _ __  ___  ___  ___ | (_) |_ ___
 / __/ _ \\| '_ \\/ __|/ _ \\/ _ \\| | | __/ _ \\
| (_| (_) | | | \\__ \\ (_) | (_) | | | ||  __/
 \\___\\___/|_| |_|___/\\___/\\___/|_|_|\\__\\___|"

def shortInfo : String :=
  "
Welcome to consolite, an assembler and emulator for the Consolite
16-bit virtual console.
Please use `-h` or `--help` to access the usage instructions and documentation.
"

/-- What is printed when nothing is asked for. -/
def bannerLines : List String :=
  ["\n~ consolite v" ++ version ++ " - Copyright (c) 2024 Artemis Rosman ~", logo, shortInfo]

/-- A text moved to the right end of a field. -/
def alignRight (width : Nat) (text : String) : String :=
  String.ofList (List.replicate (width - text.length) ' ') ++ text

/-- A text filled up to a field. -/
def alignLeft (width : Nat) (text : String) : String :=
  text ++ String.ofList (List.replicate (width - text.length) ' ')

/-- A line that says what is being done. -/
def progressLine (label text : String) : String :=
  alignRight 12 label ++ " " ++ text

/-- A line that says to which file it is being done. -/
def targetLine (label file : String) : String :=
  progressLine label ("target " ++ file)

def hexWord (v : UInt16) : String :=
  "0x" ++ String.ofList (Text.Hex.ofWord v)

def registerText (c : Cpu) (r : Register) : String :=
  alignLeft 4 r.name ++ hexWord (c.reg r)

/-- Four registers in a row. -/
def registerRows : List (List Register) :=
  [0, 4, 8, 12].map fun first => (Register.all.drop first).take 4

def flagText (name : String) (on : Bool) : String :=
  name ++ "=" ++ (if on then "1" else "0")

/-- The registers, the instruction pointer, the flags and the number of instructions. -/
def stateLines (c : Cpu) : List String :=
  registerRows.map (fun row => "  ".intercalate (row.map (registerText c))) ++
    ["IP  " ++ hexWord c.ip ++ "  " ++ flagText "O" c.flags.overflow ++ " "
      ++ flagText "C" c.flags.carry ++ " " ++ flagText "Z" c.flags.zero ++ " "
      ++ flagText "S" c.flags.sign ++ "  cycles=" ++ toString c.cycles]

end Console16
