import Console16.Isa.Opcode
import Console16.Isa.Register
import Console16.Source.Line
import Console16.Source.Word
import Console16.Text.Hex

/-!
# Console16.Source.Token

Classified words. A mnemonic is an opcode whatever else it could be, then a register name is a
register, then come literals, label declarations and label names; every other word is `unknown`.

* `TokenKind.ofWord_mnemonic`: a mnemonic is never a label.
* `tokenizeLine`: the tokens of a line, one word after the other.
-/

namespace Console16

inductive TokenKind where
  | opcode (op : Opcode)
  | register (r : Register)
  /-- The bytes of a `0x` literal. -/
  | literal (bytes : List UInt8)
  /-- A label name followed by a colon; the name is without it. -/
  | declaration (name : String)
  | reference (name : String)
  | unknown
  deriving DecidableEq, Repr

/-- Whether a character may start a label name. -/
def isNameStart (c : Char) : Bool :=
  c.isAlpha || c == '_'

/-- Whether a character may stand in a label name. -/
def isNameChar (c : Char) : Bool :=
  c.isAlphanum || c == '_'

/-- Whether a word has the form of a label name. -/
def isName : List Char → Bool
  | [] => false
  | c :: cs => isNameStart c && cs.all isNameChar

/-- The name a word declares: what stands before its final colon. -/
def declaredName? (word : List Char) : Option (List Char) :=
  if word.getLast? = some ':' ∧ isName word.dropLast then some word.dropLast else none

/-- The class of a word that is neither a mnemonic nor a register name. -/
def TokenKind.ofOther (word : List Char) : TokenKind :=
  match Text.Hex.literal? word with
  | some bytes => .literal bytes
  | none =>
    match declaredName? word with
    | some name => .declaration (String.ofList name)
    | none => if isName word then .reference (String.ofList word) else .unknown

def TokenKind.ofWord (word : List Char) : TokenKind :=
  match Opcode.ofMnemonic? (String.ofList word) with
  | some op => .opcode op
  | none =>
    match Register.ofName? (String.ofList word) with
    | some r => .register r
    | none => .ofOther word

structure Token where
  kind : TokenKind
  text : String
  span : Span
  deriving DecidableEq, Repr

def Token.ofWord (w : Word) : Token :=
  ⟨.ofWord w.text, String.ofList w.text, w.span⟩

/-- The tokens from a cursor on, behind those that were read. The line starts at byte `offset`. -/
def Cursor.collect (offset : Nat) (tokens : Array Token) (c : Cursor) : Array Token :=
  match _h : c.advanceWord with
  | none => tokens
  | some (word, next) =>
    next.collect offset (tokens.push (.ofWord ⟨offset + next.tokenStart, word⟩))
termination_by c.chars.chars.length
decreasing_by exact length_advanceWord _h

/-- The tokens of a line that starts at byte `offset`. -/
def tokenizeLine (offset : Nat) (line : List Char) : List Token :=
  ((Cursor.new line).collect offset #[]).toList

def Line.tokens (line : Line) : List Token :=
  tokenizeLine line.offset line.text

/-- The stretch from the first token to the last. -/
def spanOf (first : Token) (rest : List Token) : Span :=
  first.span.through ((rest.getLast?).getD first).span

theorem TokenKind.ofWord_mnemonic (op : Opcode) : ofWord op.mnemonic.toList = .opcode op := by
  simp [ofWord, Opcode.ofMnemonic?_mnemonic]

end Console16
