import Console16.Text.Slice

/-!
# Console16.Source.Cursor

A cursor over the characters of a line: what is left of it, and the token that is being read. Where
they start is told in bytes. The next character is `eofChar` at the end, a character that a line may
have as well, so that the end is asked for by itself.

* `Cursor.takeWhile`: characters are read while they meet a predicate.
* `Cursor.tokenStr`: the text from the start of the token to the cursor.
-/

namespace Console16

open Text (Slice takeBytes)

structure Cursor where
  input : Slice
  /-- The characters that are left. -/
  chars : Slice
  /-- The input from the start of the token on. -/
  token : Slice
  token_suffix : token.chars <:+ input.chars
  chars_suffix : chars.chars <:+ token.chars

namespace Cursor

/-- The next character at the end of the input. -/
def eofChar : Char := '\x00'

/-- A cursor at the start of a line. -/
def new (line : List Char) : Cursor :=
  ⟨.ofList line, .ofList line, .ofList line, List.suffix_refl _, List.suffix_refl _⟩

/-- The byte of the input at which the cursor stands. -/
def pos (c : Cursor) : Nat :=
  c.input.bytes - c.chars.bytes

/-- The byte of the input at which the token starts. -/
def tokenStart (c : Cursor) : Nat :=
  c.input.bytes - c.token.bytes

/-- The next character, which stays. -/
def first (c : Cursor) : Char :=
  c.chars.chars.head?.getD eofChar

def isEof (c : Cursor) : Bool :=
  c.chars.chars.isEmpty

/-- Passes one character. -/
def bump (c : Cursor) : Cursor :=
  { c with
    chars := c.chars.tail
    chars_suffix := by
      rw [Text.Slice.chars_tail]
      exact (List.tail_suffix _).trans c.chars_suffix }

theorem length_bump {c : Cursor} (h : c.isEof = false) :
    c.bump.chars.chars.length < c.chars.chars.length := by
  have hpos := List.length_pos_iff.2 (List.isEmpty_eq_false_iff.1 h)
  rw [bump, Text.Slice.chars_tail, List.length_tail]
  omega

/-- Passes characters while they meet a predicate or until the end of the input. -/
def takeWhile (p : Char → Bool) (c : Cursor) : Cursor :=
  if _h : p c.first = true ∧ c.isEof = false then c.bump.takeWhile p else c
termination_by c.chars.chars.length
decreasing_by exact length_bump _h.2

theorem length_takeWhile_le (p : Char → Bool) (c : Cursor) :
    (c.takeWhile p).chars.chars.length ≤ c.chars.chars.length := by
  fun_induction takeWhile p c with
  | case1 c h ih => exact Nat.le_trans ih (Nat.le_of_lt (length_bump h.2))
  | case2 c h => exact Nat.le_refl _

theorem length_takeWhile_lt {p : Char → Bool} {c : Cursor}
    (h : p c.first = true ∧ c.isEof = false) :
    (c.takeWhile p).chars.chars.length < c.chars.chars.length := by
  rw [takeWhile, dif_pos h]
  exact Nat.lt_of_le_of_lt (length_takeWhile_le p c.bump) (length_bump h.2)

/-- It stops only at a character that does not meet the predicate or at the end. -/
theorem takeWhile_stops (p : Char → Bool) (c : Cursor) :
    p (c.takeWhile p).first = false ∨ (c.takeWhile p).isEof = true := by
  fun_induction takeWhile p c with
  | case1 c h ih => exact ih
  | case2 c h =>
    rw [Classical.not_and_iff_not_or_not, Bool.not_eq_true, Bool.not_eq_false] at h
    exact h

/-- Starts a token where the cursor stands. -/
def resetPos (c : Cursor) : Cursor :=
  { c with
    token := c.chars
    token_suffix := c.chars_suffix.trans c.token_suffix
    chars_suffix := List.suffix_refl _ }

/-- The text from the start of the token to the cursor. -/
def tokenStr (c : Cursor) : List Char :=
  takeBytes (c.pos - c.tokenStart) c.token.chars

end Cursor
end Console16
