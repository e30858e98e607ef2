import Console16.Isa.Opcode
import Console16.Source.Span

/-!
# Console16.Asm.Error

What can be wrong with a source text, and the words for it. A `Problem` belongs to one line and one
stretch of it; an image that is too large belongs to the whole text.
-/

namespace Console16

/-- The largest image, the size of the memory. -/
def maxImage : Nat := 65536

inductive Problem where
  /-- The operands do not fit the opcode. -/
  | invalidSyntax (op : Opcode)
  /-- A label declaration with more words after it. -/
  | labelNotAlone (label : String)
  | duplicateLabel (label : String)
  /-- An operand names a label that is declared nowhere. -/
  | unresolvedLabel (label : String)
  /-- A literal with more digits than the operand holds. -/
  | dataTooLarge (bits : Nat)
  /-- The line starts with a register. -/
  | misplacedRegister (register : String)
  /-- A word that is no literal on a data line. -/
  | expectedData (token : String)
  /-- The line starts with a word that means nothing there. -/
  | unknownToken (token : String)
  deriving DecidableEq, Repr

inductive AsmError where
  | located (problem : Problem) (line : Nat) (span : Span)
  | outputTooLarge (byteLen : Nat)
  deriving DecidableEq, Repr

/-- What an opcode wants after it. -/
def Opcode.expectation (op : Opcode) : String :=
  match op.format with
  | .bare => "must be by itself"
  | format => "expected " ++ op.mnemonic ++ " " ++ format.usage

namespace Problem

/-- A word in the quotes of the messages. -/
def quoted (word : String) : String :=
  "\"" ++ word ++ "\""

/-- The message, without the line. -/
def text : Problem → String
  | .invalidSyntax op => "Invalid syntax for " ++ op.mnemonic ++ ", " ++ op.expectation
  | .labelNotAlone label => "Invalid syntax, LABEL " ++ quoted label ++ " must be by itself"
  | .duplicateLabel label => "Duplicate LABEL " ++ quoted label
  | .unresolvedLabel label => "Could not find LABEL for reference " ++ quoted label
  | .dataTooLarge bits => "Data too large, max of " ++ toString bits ++ " bits"
  | .misplacedRegister register =>
    "REG " ++ quoted register ++ " not allowed at start of instruction"
  | .expectedData token => "Unknown token " ++ quoted token ++ ", expected DATA"
  | .unknownToken token => "Unknown token " ++ quoted token

def code : Problem → String
  | .invalidSyntax _ => "asm::syntax"
  | .labelNotAlone _ => "asm::label_position"
  | .duplicateLabel _ => "asm::duplicate_label"
  | .unresolvedLabel _ => "asm::unresolved_label"
  | .dataTooLarge _ => "asm::data_too_large"
  | .misplacedRegister _ => "asm::misplaced_register"
  | .expectedData _ => "asm::expected_data"
  | .unknownToken _ => "asm::unknown_token"

def help : Problem → String
  | .invalidSyntax _ => "check the operands allowed for this instruction"
  | .labelNotAlone _ => "move the instruction following the label onto its own line"
  | .duplicateLabel _ => "labels may only be declared once per file"
  | .unresolvedLabel _ => "declare the label on a line of its own, followed by `:`"
  | .dataTooLarge _ => "literals are sized by their digit count, drop leading zeros"
  | .misplacedRegister _ => "lines should start with an opcode, a label declaration or data"
  | .expectedData _ => "data lines may only contain `0x` literals"
  | .unknownToken _ => "lines should start with an opcode, a label declaration or data"

/-- The note beside the marked stretch. -/
def label : Problem → String
  | .invalidSyntax _ => "invalid instruction"
  | .labelNotAlone _ => "label declaration"
  | .duplicateLabel _ => "duplicate label"
  | .unresolvedLabel _ => "unknown label"
  | .dataTooLarge _ => "out-of-range literal"
  | .misplacedRegister _ => "unexpected register"
  | .expectedData _ => "not a literal"
  | .unknownToken _ => "unknown token"

end Problem

namespace AsmError

def message : AsmError → String
  | .located problem line _ => problem.text ++ " on line " ++ toString line ++ "."
  | .outputTooLarge byteLen =>
    "Output would be " ++ toString byteLen
      ++ " bytes, which is larger than the maximum output size of " ++ toString maxImage ++ " bytes."

def code : AsmError → String
  | .located problem _ _ => problem.code
  | .outputTooLarge _ => "asm::output_too_large"

def help : AsmError → Option String
  | .located problem _ _ => some problem.help
  | .outputTooLarge _ => none

def line : AsmError → Option Nat
  | .located _ line _ => some line
  | .outputTooLarge _ => none

def span : AsmError → Option Span
  | .located _ _ span => some span
  | .outputTooLarge _ => none

def label : AsmError → Option String
  | .located problem _ _ => some problem.label
  | .outputTooLarge _ => none

def summary (errors : List AsmError) : String :=
  "Assembly failed with " ++ toString errors.length ++ " error(s)."

def summaryCode : String := "asm::failed"

def summaryHelp : String := "no binary was produced"

end AsmError
end Console16
