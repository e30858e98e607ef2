import Console16.Text.Blank
import Console16.Text.Numeral

/-!
# Console16.Config.Settings

Settings taken from the environment once, before anything reads them. Taking them twice or reading
them too early is an error and changes nothing. A variable that holds no number in range counts as
not set.
-/

namespace Console16

structure Settings where
  /-- Milliseconds a batch may take. -/
  batchBudget : Option Nat
  /-- Instructions between two looks at the clock. -/
  checkInterval : Option Nat
  deriving DecidableEq, Repr

namespace Settings

def batchVariable : String := "CONSOLITE_BATCH_MS"

def intervalVariable : String := "CONSOLITE_CHECK_INTERVAL"

/-- A numeral below `limit`, with blanks around it allowed. -/
def number? (limit : Nat) (text : String) : Option Nat :=
  Text.Numeral.parse? limit (Text.trimBlank text.toList)

def ofVariables (batch interval : Option String) : Settings where
  batchBudget := batch.bind (number? UInt64.size)
  checkInterval := (interval.bind (number? UInt32.size)).filter (0 < ·)

end Settings

inductive SettingsError where
  | notInitialized
  | alreadyInitialized
  deriving DecidableEq, Repr

def SettingsError.message : SettingsError → String
  | .notInitialized => "tried to access environment state before initialization"
  | .alreadyInitialized => "tried to initialize environment state multiple times"

/-- The place where settings are kept: empty until they are taken. -/
structure SettingsCell where
  taken : Option Settings
  deriving DecidableEq, Repr

namespace SettingsCell

def empty : SettingsCell := ⟨none⟩

def init (cell : SettingsCell) (s : Settings) : Except SettingsError SettingsCell :=
  match cell.taken with
  | some _ => .error .alreadyInitialized
  | none => .ok ⟨some s⟩

def read (cell : SettingsCell) : Except SettingsError Settings :=
  match cell.taken with
  | some s => .ok s
  | none => .error .notInitialized

end SettingsCell
end Console16
