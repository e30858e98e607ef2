/-!
# Console16.Text.Control

Control sequences in a text: an escape character and what belongs to it. They are not shown.

* `Control.shown`: what is left of a text without its control sequences.
-/

namespace Console16.Text

/-- Where a scan of a text is: in the text itself or in a control sequence. -/
inductive Control where
  | text
  /-- After an escape character. -/
  | escape
  /-- After an escape character and `[`, up to a letter or a mark from `@` on. -/
  | sequence
  /-- After an escape character and `]`, up to a bell or an escape character and a backslash. -/
  | command (last : Char)
  deriving DecidableEq, Repr

namespace Control

def escapeChar : Char := '\x1b'

def bell : Char := '\x07'

/-- Whether the next character is part of a control sequence. -/
def hides (s : Control) (c : Char) : Bool :=
  s ≠ .text || c = escapeChar

def next (s : Control) (c : Char) : Control :=
  match s with
  | .text => if c = escapeChar then .escape else .text
  | .escape => if c = '[' then .sequence else if c = ']' then .command c else .text
  | .sequence => if '@' ≤ c && c ≤ '~' then .text else .sequence
  | .command last =>
    if c = bell || (c = '\\' && last = escapeChar) then .text else .command c

/-- The characters of a text that no control sequence hides. -/
def shown (cs : List Char) : List Char :=
  (cs.foldl (fun (acc : Control × List Char) c =>
    (acc.1.next c, if acc.1.hides c then acc.2 else c :: acc.2)) (.text, [])).2.reverse

end Control
end Console16.Text
