import Console16.Placed
import Console16.Text.Split
import Console16.Text.Width

/-!
# Console16.Source.Line

A source text as numbered lines, each with the bytes before it. Only `'\n'` ends a line, so a
carriage return stays in it; the text after the last line feed is a line too, even when empty.
-/

namespace Console16

structure Line where
  /-- Counted from 1. -/
  number : Nat
  /-- UTF-8 bytes before the line. -/
  offset : Nat
  text : List Char

/-- The lines of a text, each one byte after the end of the line before. -/
def sourceLines (source : List Char) : List Line :=
  let lines := placed (fun l => Text.width l + 1) 0 (Text.splitOn '\n' source)
  (lines.zipIdx 1).map fun entry => ⟨entry.2, entry.1.1, entry.1.2⟩

end Console16
