import Console16.Asm.Parse
import Console16.Asm.Program

/-!
# Console16.Asm.Assemble

Source text to image. Labels are looked up only when every line is in order, so a text with a bad
line reports its bad lines and nothing else.
-/

namespace Console16

/-- The resolved program of a text. -/
def programOf (source : List Char) : Except (List AsmError) Program :=
  match Listing.ofSource source with
  | .ok listing => listing.resolve
  | .error errors => .error errors

/-- The image of a text. -/
def assemble (source : String) : Except (List AsmError) (List UInt8) :=
  (programOf source.toList).map Program.image

end Console16
