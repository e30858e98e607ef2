import Console16.Asm.Error
import Console16.Asm.Stmt
import Console16.Source.Token

/-!
# Console16.Asm.Grammar

What a line of tokens says: an instruction, a row of data, a label declaration or nothing. The
answer depends on that line alone; of everything that is wrong with it, one thing is reported.

* `Item.ofTokens_nil`: a line without words says nothing.
* `dataRow_eq_ok_iff`: a row of data is one exactly when every word of it is a literal.
-/

namespace Console16

/-- What one line contributes. -/
inductive Item where
  | stmt (s : Stmt Target)
  /-- A label declaration and the word it is written with. -/
  | label (name : String) (span : Span)

namespace Token

def register? (tok : Token) : Option Register :=
  match tok.kind with
  | .register r => some r
  | _ => none

def literal? (tok : Token) : Option (List UInt8) :=
  match tok.kind with
  | .literal bytes => some bytes
  | _ => none

/-- The error of a literal with too many digits for its operand. -/
def tooLarge (tok : Token) (bits line : Nat) : AsmError :=
  .located (.dataTooLarge bits) line tok.span

/-- A 16-bit operand: a literal of at most two bytes, or the name of a label. -/
def target? (tok : Token) (line : Nat) : Option (Except AsmError Target) :=
  match tok.kind with
  | .literal [lo] => some (.ok (.value (wordOf 0 lo)))
  | .literal [hi, lo] => some (.ok (.value (wordOf hi lo)))
  | .literal _ => some (.error (tok.tooLarge 16 line))
  | .reference name => some (.ok (.label ⟨name, line, tok.span⟩))
  | _ => none

/-- An 8-bit operand: a literal of one byte. -/
def byte? (tok : Token) (line : Nat) : Option (Except AsmError UInt8) :=
  match tok.kind with
  | .literal [b] => some (.ok b)
  | .literal _ => some (.error (tok.tooLarge 8 line))
  | _ => none

end Token

/-- Operands in a format; `none` if the words do not have its shape, an error if a literal of the
right shape is too large. -/
def operands? (line : Nat) : (f : Format) → List Token →
    Option (Except AsmError (Operands Target f))
  | .bare, [] => some (.ok .bare)
  | .regReg, [a, b] =>
    match a.register?, b.register? with
    | some r1, some r2 => some (.ok (.regReg r1 r2))
    | _, _ => none
  | .reg, [a] => a.register?.map fun r => .ok (.reg r)
  | .regImm, [a, b] =>
    match a.register? with
    | some r => (b.target? line).map fun imm => imm.map (.regImm r)
    | none => none
  | .addr, [a] => (a.target? line).map fun imm => imm.map .addr
  | .byte, [] => some (.ok (.byte 0))
  | .byte, [a] => (a.byte? line).map fun imm => imm.map .byte
  | _, _ => none

/-- The instruction of an opcode and the tokens after it. -/
def instruction (line : Nat) (op : Opcode) (first : Token) (rest : List Token) :
    Except AsmError (Stmt Target) :=
  match operands? line op.format rest with
  | some (.ok operands) => .ok (.instr line op operands)
  | some (.error e) => .error e
  | none => .error (.located (.invalidSyntax op) line (spanOf first rest))

/-- A row of literals, one after the other. -/
def dataRow (line : Nat) (toks : List Token) : Except AsmError (Stmt Target) :=
  match toks.find? fun tok => tok.literal?.isNone with
  | some tok => .error (.located (.expectedData tok.text) line tok.span)
  | none => .ok (.data line (toks.flatMap fun tok => tok.literal?.getD []))

/-- What a line of tokens says, if anything. -/
def Item.ofTokens (line : Nat) : List Token → Except AsmError (Option Item)
  | [] => .ok none
  | first :: rest =>
    match first.kind with
    | .opcode op => (instruction line op first rest).map fun s => some (.stmt s)
    | .literal _ => (dataRow line (first :: rest)).map fun s => some (.stmt s)
    | .declaration name =>
      if rest.isEmpty then .ok (some (.label name first.span))
      else .error (.located (.labelNotAlone name) line first.span)
    | .register _ => .error (.located (.misplacedRegister first.text) line first.span)
    | .reference _ | .unknown => .error (.located (.unknownToken first.text) line first.span)

theorem dataRow_eq_ok_iff {line : Nat} {toks : List Token} {s : Stmt Target} :
    dataRow line toks = .ok s ↔
      (∀ tok ∈ toks, tok.literal?.isSome) ∧
        s = .data line (toks.flatMap fun tok => tok.literal?.getD []) := by
  unfold dataRow
  split
  · rename_i tok h
    have hm := List.mem_of_find?_eq_some h
    have hn := List.find?_some h
    simp only [reduceCtorEq, false_iff, not_and]
    intro hall
    have := hall tok hm
    simp_all
  · rename_i h
    have hall : ∀ tok ∈ toks, tok.literal?.isSome := by
      simpa [Option.isSome_iff_ne_none] using h
    constructor
    · intro hs
      cases hs
      exact ⟨hall, rfl⟩
    · rintro ⟨-, rfl⟩
      rfl

@[simp] theorem Item.ofTokens_nil (line : Nat) : Item.ofTokens line [] = .ok none := rfl

end Console16
