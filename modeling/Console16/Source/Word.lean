import Console16.Source.Cursor
import Console16.Source.Span
import Console16.Text.Blank

/-!
# Console16.Source.Word

The words of a source line, which blanks separate. A semicolon ends a word and the line: what comes
behind it is a comment.

* `Cursor.advanceWord`: the next word of a line.
* `Cursor.length_advanceWord`: less of the line is left behind it.
-/

namespace Console16

open Text (isBlank width)

/-- A word and the byte at which it starts. -/
structure Word where
  offset : Nat
  text : List Char

def Word.span (w : Word) : Span :=
  ⟨w.offset, width w.text⟩

namespace Cursor

/-- Whether a character goes on with a word. -/
def inWord (c : Char) : Bool :=
  !isBlank c && c != ';'

/-- The next word and the cursor behind it, or `none` at the end of the line or at a comment. -/
def advanceWord (c : Cursor) : Option (List Char × Cursor) :=
  let c := c.takeWhile isBlank
  if c.isEof || c.first == ';' then none
  else
    let c := c.resetPos.takeWhile inWord
    some (c.tokenStr, c)

theorem length_advanceWord {c next : Cursor} {word : List Char}
    (h : c.advanceWord = some (word, next)) :
    next.chars.chars.length < c.chars.chars.length := by
  have hstops := takeWhile_stops isBlank c
  have hle := length_takeWhile_le isBlank c
  simp only [advanceWord] at h
  generalize c.takeWhile isBlank = start at h hstops hle
  split at h
  · cases h
  · rename_i hword
    cases h
    rw [Bool.or_eq_true, not_or, Bool.not_eq_true, Bool.not_eq_true] at hword
    obtain ⟨heof, hsemi⟩ := hword
    have hblank : isBlank start.first = false := by simpa [heof] using hstops
    have hfirst : inWord start.first = true := by
      rw [inWord, hblank, bne, hsemi]
      rfl
    exact Nat.lt_of_lt_of_le (length_takeWhile_lt ⟨hfirst, heof⟩) hle

end Cursor
end Console16
