/-!
# Console16.Cli.Wildcard

Rows of wildcards and the texts they match.

* `Wildcard.matchList`: whether a text matches, for all ends of the text at once and one element after
  the other from the last, so that no part of the text is looked at more than once for an element,
  however many runs there are.
-/

namespace Console16

inductive Wildcard where
  | literal (c : Char)
  | anyChar
  | anyRun
  /-- A character in one of the closed ranges. -/
  | within (ranges : List (Char × Char))
  /-- A character in none of them. -/
  | except (ranges : List (Char × Char))
  /-- Any number of directories. -/
  | anyDirs
  deriving DecidableEq, Repr

namespace Wildcard

/-- The ranges a class lists: `a-z` is one, any other character is a range of its own. -/
def ranges : List Char → List (Char × Char)
  | a :: '-' :: b :: rest => (a, b) :: ranges rest
  | a :: rest => (a, a) :: ranges rest
  | [] => []

/-- Whether a character lies in one of some ranges. -/
def inRanges (rs : List (Char × Char)) (c : Char) : Bool :=
  rs.any fun r => r.1 ≤ c && c ≤ r.2

/-- Whether an element stands for any number of characters. -/
def isRun : Wildcard → Bool
  | .anyRun | .anyDirs => true
  | _ => false

/-- Whether an element matches one character. -/
def accepts : Wildcard → Char → Bool
  | .literal d, c => c == d
  | .within rs, c => inRanges rs c
  | .except rs, c => !inRanges rs c
  | .anyChar, _ | .anyRun, _ | .anyDirs, _ => true

/-- Puts an element in front of a row. The answers of the row are given for every end of the text,
the longest first, and so are those of the longer row. -/
def extend (w : Wildcard) : List Char → List Bool → List Bool
  | c :: cs, b :: bs =>
    let shorter := w.extend cs bs
    (if w.isRun then b || shorter.headD false else w.accepts c && bs.headD false) :: shorter
  | [], b :: _ => [w.isRun && b]
  | _, [] => []

/-- Whether a row of elements matches a text, for every end of the text, the longest first. -/
def matchedEnds (cs : List Char) : List Wildcard → List Bool
  | [] => cs.map (fun _ => false) ++ [true]
  | w :: ws => w.extend cs (matchedEnds cs ws)

/-- Whether a row of elements matches a whole text. -/
def matchList (ws : List Wildcard) (cs : List Char) : Bool :=
  (matchedEnds cs ws).headD false

end Wildcard
end Console16
