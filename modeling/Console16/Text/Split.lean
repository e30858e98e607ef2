/-!
# Console16.Text.Split

A text cut at every occurrence of one character. There is one more piece than there are cuts, so
the empty text is one empty piece.
-/

namespace Console16.Text

/-- Puts a character in front of a cut text: a separator starts a new first piece. -/
def consPiece (sep c : Char) (pieces : List Char × List (List Char)) :
    List Char × List (List Char) :=
  if c = sep then ([], pieces.1 :: pieces.2) else (c :: pieces.1, pieces.2)

/-- The first piece of a text and the pieces after it. -/
def splitFirst (sep : Char) (cs : List Char) : List Char × List (List Char) :=
  cs.foldr (consPiece sep) ([], [])

/-- The pieces of a text, at least one. -/
def splitOn (sep : Char) (cs : List Char) : List (List Char) :=
  (splitFirst sep cs).1 :: (splitFirst sep cs).2

end Console16.Text
