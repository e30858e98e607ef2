import Console16.Text.Blank
import Console16.Text.Split

/-!
# Console16.Config.Features

Optional behaviours of the machine, written as a list of names with commas between. Blanks around a
name and empty pieces do not count; an unknown or a repeated name is refused and the error shows the
piece as it was written.

* `Features.ofText_toText`: a printed feature set reads back.
-/

namespace Console16

structure Features where
  /-- An unknown opcode stops the machine. -/
  strict : Bool
  deriving DecidableEq, Repr

inductive FeatureError where
  | unknown (piece : String)
  | repeated (piece : String)
  deriving DecidableEq, Repr

def FeatureError.message : FeatureError → String
  | .unknown piece => "Unknown feature '" ++ piece ++ "'"
  | .repeated piece => "Cannot specify feature '" ++ piece ++ "' twice"

namespace Features

def none : Features := ⟨false⟩

/-- The names of the behaviours that are on. -/
def toText (f : Features) : String :=
  if f.strict then "strict" else ""

/-- Turns on what one piece names. -/
def addPiece (f : Features) (piece : List Char) : Except FeatureError Features :=
  let name := Text.trimBlank piece
  if name = [] then .ok f
  else if name = "strict".toList then
    if f.strict then .error (.repeated (String.ofList piece)) else .ok { f with strict := true }
  else .error (.unknown (String.ofList piece))

/-- The features a text names, read from the left up to the first error. -/
def ofText (text : String) : Except FeatureError Features :=
  (Text.splitOn ',' text.toList).foldlM addPiece none

theorem ofText_toText (f : Features) : ofText f.toText = .ok f := by
  obtain ⟨_ | _⟩ := f <;> rfl

end Features
end Console16
