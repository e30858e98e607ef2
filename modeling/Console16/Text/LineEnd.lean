import Console16.Text.LineClass

/-!
# Console16.Text.LineEnd

Where a line may end, by the line breaking rules of Unicode. A text is read from left to right; what
the rules need to know of the characters before a place is kept in a `LineContext`. Two rules look
past the character after a place, at the one that comes then (`withNext`).

* `lineEnds`: for every character of a text, whether a line may end after it.
-/

namespace Console16.Text

namespace LineClass

/-- Letters of alphabets. -/
def alphabetic : List LineClass :=
  [.letter, .hebrew, .loLing, .dottedCircle]

/-- Hangul syllables and their parts. -/
def hangul : List LineClass :=
  [.jamoL, .jamoV, .jamoT, .syllableLV, .syllableLVT]

/-- Letters of Brahmic scripts that take a virama, and what stands for one. -/
def syllabic : List LineClass :=
  [.akshara, .aksharaStart, .dottedCircle]

/-- Letters that a virama joins to the letter before it. -/
def conjunct : List LineClass :=
  [.akshara, .dottedCircle]

/-- Ideographs and pictures. -/
def pictorial : List LineClass :=
  [.ideograph, .pictograph, .emojiBase, .emojiModifier]

def brackets : List LineClass :=
  [.opening, .wideOpening]

def quotes : List LineClass :=
  [.quotation, .initialQuotation, .finalQuotation]

/-- Characters that may start a line after two of a class, though not after one alone. -/
def afterPair : LineClass → List LineClass
  | .dottedCircle => [.dottedCircle, .numberEnd, .finalQuotation]
  | .loLing => [.letter, .loLing]
  | _ => []

/-- Characters at which a line has to end. -/
def ending : List LineClass :=
  [.hardBreak, .carriageReturn, .lineFeed, .nextLine]

/-- Characters that a mark cannot belong to. -/
def bare : List LineClass :=
  [.space, .zeroWidthSpace] ++ ending

/-- Characters that glue does not keep on its line. -/
def loose : List LineClass :=
  [.space, .after, .hyphen]

/-- Characters after which an initial quotation mark opens a quotation. -/
def beforeQuotation : List LineClass :=
  .glue :: bare ++ brackets ++ quotes

/-- Characters before which a final quotation mark closes a quotation. -/
def afterQuotation : List LineClass :=
  [.glue, .wordJoiner, .closing, .closingParen, .exclamation, .separator, .slash] ++ bare ++ quotes

/-- A mark that belongs to nothing counts as a letter. -/
def alone : LineClass → LineClass
  | .mark | .joiner => .letter
  | k => k

/-- Whether two characters stay on one line even with spaces between them. -/
def joinsOverSpaces (a b : LineClass) : Bool :=
  [.closing, .closingParen, .exclamation, .separator, .slash].contains b
    || brackets.contains a
    || ([.closing, .closingParen].contains a && b = .nonStarter)
    || (a = .both && b = .both)

/-- Characters that stay on one line if they are side by side: one of the first list and one of the
second. -/
def joinedPairs : List (List LineClass × List LineClass) :=
  [([.slash], [.hebrew]),
   (alphabetic, [.numeric]),
   ([.numeric], alphabetic),
   ([.numberStart], pictorial),
   (pictorial, [.numberEnd]),
   ([.numberStart, .numberEnd], alphabetic),
   (alphabetic, [.numberStart, .numberEnd]),
   ([.closing, .closingParen, .numeric], [.numberEnd, .numberStart]),
   ([.numberEnd, .numberStart], .numeric :: brackets),
   ([.hyphen, .separator, .numeric, .slash], [.numeric]),
   ([.jamoL], [.jamoL, .jamoV, .syllableLV, .syllableLVT]),
   ([.jamoV, .syllableLV], [.jamoV, .jamoT]),
   ([.jamoT, .syllableLVT], [.jamoT]),
   (hangul, [.numberEnd]),
   ([.numberStart], hangul),
   (alphabetic, alphabetic),
   ([.aksharaPrefix], syllabic),
   (syllabic, [.virama, .finalVirama]),
   ([.separator], alphabetic),
   (.numeric :: alphabetic, [.opening]),
   ([.closingParen], .numeric :: alphabetic),
   ([.emojiBase, .pictograph], [.emojiModifier])]

/-- Whether two characters stay on one line if they are side by side. -/
def joins (a b : LineClass) : Bool :=
  a = .before || [.after, .hyphen, .nonStarter, .inseparable].contains b
    || joinedPairs.any fun pair => pair.1.contains a && pair.2.contains b

end LineClass

/-- What is known of the characters before a place. Marks count as what they belong to. -/
structure LineContext where
  last : LineClass
  /-- The last character that is no space. -/
  solid : LineClass
  /-- The last character is a joiner. -/
  joined : Bool
  /-- The last character that is no space is a mark that opens a quotation. -/
  quoting : Bool
  /-- The last character is a virama on a letter. -/
  conjoining : Bool
  /-- The last character is a hyphen or the like, after a Hebrew letter. -/
  hebrewHyphen : Bool
  /-- The last character is the second of two of its class, of a run of them taken two by two. -/
  paired : Bool

namespace LineContext

/-- After the first character of a text. -/
def first (k : LineClass) : LineContext :=
  ⟨k.alone, k.alone, k = .joiner, k = .initialQuotation, false, false, false⟩

/-- Whether a character is a mark on the last one. -/
def attaches (s : LineContext) (k : LineClass) : Bool :=
  (k = .mark || k = .joiner) && !LineClass.bare.contains s.last

def next (s : LineContext) (k : LineClass) : LineContext :=
  if s.attaches k then { s with joined := k = .joiner }
  else
    { last := k.alone
      solid := if k = .space then s.solid else k.alone
      joined := k = .joiner
      quoting :=
        if k = .space then s.quoting
        else k = .initialQuotation && LineClass.beforeQuotation.contains s.last
      conjoining := k = .virama && LineClass.syllabic.contains s.last
      hebrewHyphen := (k = .hyphen || k = .after) && s.last = .hebrew
      paired := k = s.last && !s.paired }

/-- Whether a final quotation mark closes a quotation: by what comes then, or at the end. -/
def closesQuotation (after : Option LineClass) : Bool :=
  after.all LineClass.afterQuotation.contains

/-- Whether the last character and the next one are in one syllable: the virama between them makes
it so, or the one that ends the syllable comes then. -/
def sharesSyllable (s : LineContext) (k : LineClass) (after : Option LineClass) : Bool :=
  (s.conjoining && LineClass.conjunct.contains k)
    || (LineClass.syllabic.contains s.last && LineClass.syllabic.contains k
      && after = some .finalVirama)

/-- Whether a line may end between the characters before a place and one of a class, with a
character of another class after that. -/
def endsBefore (s : LineContext) (k : LineClass) (after : Option LineClass) : Bool :=
  let a := s.last
  let b := k.alone
  if a = .carriageReturn then k ≠ .lineFeed
  else if LineClass.ending.contains a then true
  else if LineClass.bare.contains k then false
  else if s.solid = .zeroWidthSpace then true
  else if s.joined || s.attaches k then false
  else if s.paired && a.afterPair.contains b then true
  else if a = .wordJoiner || b = .wordJoiner || a = .glue then false
  else if b = .glue && !LineClass.loose.contains a then false
  else if LineClass.joinsOverSpaces s.solid b then false
  else if s.quoting then false
  else if b = .finalQuotation && closesQuotation after then false
  else if a = .space then true
  else if LineClass.quotes.contains a || LineClass.quotes.contains b then false
  else if a = .contingent || b = .contingent then true
  else if s.hebrewHyphen then false
  else if a = .regional && b = .regional then s.paired
  else !(a.joins b || s.sharesSyllable b after)

end LineContext

/-- Classes with the next one that is no mark. -/
def withNext (ks : List LineClass) : List (LineClass × Option LineClass) :=
  (ks.foldr (fun k acc =>
    (if k = .mark || k = .joiner then acc.1 else some k, (k, acc.1) :: acc.2)) (none, [])).2

/-- Goes on with a character: whether a line may end before it comes in front of the other answers,
those for the places before it. -/
def lineEndStep (acc : LineContext × List Bool) (k : LineClass × Option LineClass) :
    LineContext × List Bool :=
  (acc.1.next k.1, acc.1.endsBefore k.1 k.2 :: acc.2)

/-- Whether a line may end after each character of a text. -/
def lineEnds (cs : List Char) : List Bool :=
  match withNext (cs.map LineClass.ofChar) with
  | [] => []
  | k :: ks => (true :: (ks.foldl lineEndStep (.first k.1, [])).2).reverse

end Console16.Text
