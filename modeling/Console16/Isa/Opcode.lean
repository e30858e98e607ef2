/-!
# Console16.Isa.Opcode

The forty-five opcodes: mnemonic, code and operand format of each. A code outside the table is no
opcode; the processor meets it as an unknown instruction.

* `Opcode.ofMnemonic?_mnemonic`, `Opcode.ofByte?_code`: both tables read back what they print.
* `Opcode.eq_of_mnemonic?`, `Opcode.eq_of_ofByte?`: and accept nothing else.
-/

namespace Console16

/-- What the operands of an opcode look like, in the source and in the three bytes after the code. -/
inductive Format where
  /-- No operand: `0 0 0`. -/
  | bare
  /-- Two registers: `r1 r2 0`. -/
  | regReg
  /-- One register: `r 0 0`. -/
  | reg
  /-- A register and a 16-bit value: `r hi lo`. -/
  | regImm
  /-- A 16-bit value: `hi lo 0`. -/
  | addr
  /-- An 8-bit value, zero when left out: `b 0 0`. -/
  | byte
  deriving DecidableEq, Repr

/-- The operand grammar as diagnostics show it. -/
def Format.usage : Format → String
  | .bare => ""
  | .regReg => "REG1 REG2"
  | .reg => "REG"
  | .regImm => "REG LABEL|DATA"
  | .addr => "LABEL|DATA"
  | .byte => "[DATA]"

inductive Opcode where
  | nop | input | call | ret | load | loadi | mov | movi | push | pop
  | add | sub | mul | div | and | or | xor | shl | shra | shrl | cmp | tst
  | color | pixel | stor | stori | time | timerst | rnd
  | jmp | jmpi | jeq | jne | jg | jge | ja | jae | jl | jle | jb | jbe | jo | jno | js | jns
  deriving DecidableEq, Repr

namespace Opcode

def all : List Opcode :=
  [.nop, .input, .call, .ret, .load, .loadi, .mov, .movi, .push, .pop,
   .add, .sub, .mul, .div, .and, .or, .xor, .shl, .shra, .shrl, .cmp, .tst,
   .color, .pixel, .stor, .stori, .time, .timerst, .rnd,
   .jmp, .jmpi, .jeq, .jne, .jg, .jge, .ja, .jae, .jl, .jle, .jb, .jbe, .jo, .jno, .js, .jns]

/-- The word that names an opcode in a source line. -/
def mnemonic : Opcode → String
  | .nop => "NOP" | .input => "INPUT" | .call => "CALL" | .ret => "RET"
  | .load => "LOAD" | .loadi => "LOADI" | .mov => "MOV" | .movi => "MOVI"
  | .push => "PUSH" | .pop => "POP" | .add => "ADD" | .sub => "SUB"
  | .mul => "MUL" | .div => "DIV" | .and => "AND" | .or => "OR" | .xor => "XOR"
  | .shl => "SHL" | .shra => "SHRA" | .shrl => "SHRL" | .cmp => "CMP" | .tst => "TST"
  | .color => "COLOR" | .pixel => "PIXEL" | .stor => "STOR" | .stori => "STORI"
  | .time => "TIME" | .timerst => "TIMERST" | .rnd => "RND" | .jmp => "JMP" | .jmpi => "JMPI"
  | .jeq => "JEQ" | .jne => "JNE" | .jg => "JG" | .jge => "JGE" | .ja => "JA" | .jae => "JAE"
  | .jl => "JL" | .jle => "JLE" | .jb => "JB" | .jbe => "JBE" | .jo => "JO" | .jno => "JNO"
  | .js => "JS" | .jns => "JNS"

def code : Opcode → UInt8
  | .nop => 0x00 | .input => 0x01 | .call => 0x02 | .ret => 0x03 | .load => 0x04
  | .loadi => 0x05 | .mov => 0x06 | .movi => 0x07 | .push => 0x08 | .pop => 0x09
  | .add => 0x0a | .sub => 0x0b | .mul => 0x0c | .div => 0x0d | .and => 0x0e | .or => 0x0f
  | .xor => 0x10 | .shl => 0x11 | .shra => 0x12 | .shrl => 0x13 | .cmp => 0x14 | .tst => 0x15
  | .color => 0x16 | .pixel => 0x17 | .stor => 0x18 | .stori => 0x19 | .time => 0x1a
  | .timerst => 0x1b | .rnd => 0x1c | .jmp => 0x30 | .jmpi => 0x31 | .jeq => 0x32 | .jne => 0x33
  | .jg => 0x34 | .jge => 0x35 | .ja => 0x36 | .jae => 0x37 | .jl => 0x38 | .jle => 0x39
  | .jb => 0x3a | .jbe => 0x3b | .jo => 0x3c | .jno => 0x3d | .js => 0x3e | .jns => 0x3f

def format : Opcode → Format
  | .nop | .timerst => .bare
  | .input | .load | .mov | .add | .sub | .mul | .div | .and | .or | .xor | .shl | .shra | .shrl
  | .cmp | .tst | .pixel | .stor => .regReg
  | .push | .pop | .color | .jmp | .time | .rnd => .reg
  | .loadi | .stori | .movi => .regImm
  | .call | .jmpi | .jeq | .jne | .jg | .jge | .ja | .jae | .jl | .jle | .jb | .jbe | .jo | .jno
  | .js | .jns => .addr
  | .ret => .byte

/-- The opcode a word names. Case matters. -/
def ofMnemonic? (word : String) : Option Opcode :=
  all.find? fun op => op.mnemonic == word

def ofByte? (b : UInt8) : Option Opcode :=
  all.find? fun op => op.code == b

theorem mem_all (op : Opcode) : op ∈ all := by
  cases op <;> decide

theorem ofMnemonic?_mnemonic (op : Opcode) : ofMnemonic? op.mnemonic = some op := by
  cases op <;> decide

theorem ofByte?_code (op : Opcode) : ofByte? op.code = some op := by
  cases op <;> rfl

theorem eq_of_mnemonic? {word : String} {op : Opcode} (h : ofMnemonic? word = some op) :
    word = op.mnemonic := by
  have := List.find?_some h
  exact (beq_iff_eq.1 this).symm

theorem eq_of_ofByte? {b : UInt8} {op : Opcode} (h : ofByte? b = some op) : b = op.code := by
  have := List.find?_some h
  exact (beq_iff_eq.1 this).symm

end Opcode
end Console16
