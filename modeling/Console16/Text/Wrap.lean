import Console16.Text.Blank
import Console16.Text.Columns
import Console16.Text.LineEnd
import Console16.Text.Split
import Console16.Text.WordChar

/-!
# Console16.Text.Wrap

A text in lines of a given width. It is cut into chunks where a line may end, and at hyphens inside
words; a chunk that is wider than a line is cut wherever a line is full. A line takes as many
chunks as fit, and the spaces at its end are left out. `unwrap` reads the lines as one text again.

* `wrap`: the lines of a text, line breaks in it kept.
-/

namespace Console16.Text

/-- Characters that stay on one line, and the spaces after them. -/
structure Chunk where
  text : List Char
  spaces : Nat
  deriving DecidableEq, Repr

/-- Puts a marked element in front of the parts of a list: a part ends after a mark. -/
def consPart {α : Type} (p : α × Bool) (parts : List (List α)) : List (List α) :=
  if p.2 then [p.1] :: parts
  else
    match parts with
    | [] => [[p.1]]
    | part :: rest => (p.1 :: part) :: rest

/-- A list cut after each of its marked elements. -/
def cutAfter {α : Type} (marked : List (α × Bool)) : List (List α) :=
  marked.foldr consPart []

def softHyphen : Char := '\u00ad'

/-- Hyphens are left to the words they are in, and soft hyphens are no places to end a line. -/
def isHyphen (c : Char) : Bool :=
  c = '-' || c = softHyphen

/-- Takes the last mark away: it is the end of the text, which needs no mark. -/
def dropLastMark (marks : List Bool) : List Bool :=
  (marks.foldr (fun mark (acc : Bool × List Bool) =>
    if mark && !acc.1 then (true, false :: acc.2) else (acc.1, mark :: acc.2)) (false, [])).2

/-- The places inside a text where a line may end, as marks of the characters before them. -/
def lineMarks (cs : List Char) : List Bool :=
  dropLastMark (List.zipWith (fun c mark => mark && !isHyphen c) cs (lineEnds cs))

/-- Gives the next mark to a character, unless a control sequence hides it. -/
def markStep (acc : Control × List Bool × List (Char × Bool)) (c : Char) :
    Control × List Bool × List (Char × Bool) :=
  match acc with
  | (scan, marks, done) =>
    if scan.hides c then (scan.next c, marks, (c, false) :: done)
    else (scan.next c, marks.drop 1, (c, marks.headD false) :: done)

/-- The characters of a line, each with its mark. Control sequences go with what follows them. -/
def marked (line : List Char) : List (Char × Bool) :=
  (line.foldl markStep (.text, lineMarks (Control.shown line), [])).2.2.reverse

/-- The words of a line, each with the spaces after it. -/
def words (line : List Char) : List (List Char) :=
  cutAfter (marked line)

/-- The hyphens between two characters of words, as marks. -/
def hyphenMarks (cs : List Char) : List (Char × Bool) :=
  let before := none :: cs.map some
  let after := (cs.drop 1).map some ++ [none]
  (before.zip (cs.zip after)).map fun p =>
    (p.2.1, p.2.1 = '-' && p.1.any isWordChar && p.2.2.any isWordChar)

/-- Parts of a word as chunks; the spaces go with the last. -/
def Chunk.ofParts (spaces : Nat) (parts : List (List Char)) : List Chunk :=
  parts.dropLast.map (fun part => ⟨part, 0⟩) ++ [⟨parts.getLastD [], spaces⟩]

/-- A word in chunks that end after its hyphens. -/
def Chunk.ofWord (word : List Char) : List Chunk :=
  let text := (word.reverse.dropWhile (· = ' ')).reverse
  Chunk.ofParts (word.length - text.length) (cutAfter (hyphenMarks text))

/-- The parts of a chunk that are full, the last first, and the one that is not. -/
structure Cutting where
  scan : Control
  full : List (List Char)
  /-- The characters of the part, last first. -/
  part : List Char
  used : Nat

/-- Puts a character on the part, or on a new one if there is no room for it. -/
def Cutting.put (width : Nat) (p : Cutting) (c : Char) : Cutting :=
  if p.scan.hides c then { p with scan := p.scan.next c, part := c :: p.part }
  else if 0 < p.used && width < p.used + charColumns c then
    ⟨p.scan.next c, p.part.reverse :: p.full, [c], charColumns c⟩
  else ⟨p.scan.next c, p.full, c :: p.part, p.used + charColumns c⟩

def Cutting.parts (p : Cutting) : List (List Char) :=
  (p.part.reverse :: p.full).reverse

/-- A chunk in chunks that fit a line. -/
def Chunk.cut (width : Nat) (c : Chunk) : List Chunk :=
  if width < columns c.text then
    Chunk.ofParts c.spaces (c.text.foldl (Cutting.put width) ⟨.text, [], [], 0⟩).parts
  else [c]

def Chunk.chars (c : Chunk) : List Char :=
  c.text ++ List.replicate c.spaces ' '

/-- Lines that are full, and the one to which chunks are still added. The last comes first. -/
structure Page where
  full : List (List Chunk)
  line : List Chunk
  /-- The columns of the line, with the spaces at its end. -/
  used : Nat

namespace Page

/-- Puts a chunk on the line, or on a new one if it is too wide for the rest of the line. -/
def put (width : Nat) (p : Page) (c : Chunk) : Page :=
  let own := columns c.text
  if p.line.isEmpty || p.used + own ≤ width then
    ⟨p.full, c :: p.line, p.used + own + c.spaces⟩
  else ⟨p.line :: p.full, [c], own + c.spaces⟩

/-- The characters of a line without the spaces at its end. -/
def lineChars : List Chunk → List Char
  | [] => []
  | last :: before => before.reverse.flatMap Chunk.chars ++ last.text

def lines (p : Page) : List (List Char) :=
  (p.line :: p.full).reverse.map lineChars

end Page

/-- The lines of a text without line breaks. -/
def wrapLine (width : Nat) (line : List Char) : List (List Char) :=
  let chunks := ((words line).flatMap Chunk.ofWord).flatMap (Chunk.cut width)
  (chunks.foldl (Page.put width) ⟨[], [], 0⟩).lines

/-- A text in lines of a given width. -/
def wrap (width : Nat) (text : String) : List String :=
  (splitOn '\n' text.toList).flatMap fun line => (wrapLine width line).map String.ofList

/-- Lines as one text: without the blanks at their ends, up to the first that is blank. -/
def unwrap (lines : List String) : String :=
  let trimmed := lines.map fun line => String.ofList (trimBlank line.toList)
  " ".intercalate (trimmed.takeWhile fun line => !line.isEmpty)

end Console16.Text
