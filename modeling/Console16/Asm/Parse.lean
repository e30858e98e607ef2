import Console16.Asm.Grammar
import Console16.Asm.Listing
import Console16.Source.Line

/-!
# Console16.Asm.Parse

From source text to a listing. Every line is read, also after an error, so that all errors of the
text are reported together, one for each bad line and in line order.

* `Listing.ofSource`: a listing exactly when there is no error.
-/

namespace Console16

/-- What has been read so far. -/
structure Draft where
  listing : Listing
  errors : Array AsmError

namespace Draft

def empty : Draft := ⟨.empty, #[]⟩

def fail (d : Draft) (e : AsmError) : Draft :=
  { d with errors := d.errors.push e }

/-- Lays what a line says. -/
def place (d : Draft) (line : Nat) : Item → Draft
  | .stmt s => { d with listing := d.listing.add s }
  | .label name span =>
    match d.listing.declare? name with
    | some listing => { d with listing }
    | none => d.fail (.located (.duplicateLabel name) line span)

def read (d : Draft) (line : Line) : Draft :=
  match Item.ofTokens line.number line.tokens with
  | .ok none => d
  | .ok (some item) => d.place line.number item
  | .error e => d.fail e

/-- Reads a text from its first line to its last. -/
def ofLines (lines : List Line) : Draft :=
  lines.foldl read empty

end Draft

/-- The listing of a text, or every error in it. -/
def Listing.ofSource (source : List Char) : Except (List AsmError) Listing :=
  let draft := Draft.ofLines (sourceLines source)
  if draft.errors.isEmpty then .ok draft.listing else .error draft.errors.toList

end Console16
