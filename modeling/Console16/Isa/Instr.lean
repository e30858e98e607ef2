import Console16.Isa.Operands

/-!
# Console16.Isa.Instr

Instructions as the processor executes them, and decoding. The twelve arithmetic opcodes are one
form with an operation, the fourteen conditional jumps one form with a condition, and a byte that
is no opcode is the form `unknown`.

* `Instr.of`: what an opcode with operands of its format means.
* `Instr.decode_eq`: decoding reads the operands in the format of the opcode.
* `Instr.decode_encode`: decoding an encoded instruction gives its meaning.
-/

namespace Console16

/-- Operations of the arithmetic unit. Only these set the flags. -/
inductive AluOp where
  | add | sub | mul | div | and | or | xor | shl | shra | shrl | cmp | tst
  deriving DecidableEq, Repr

def AluOp.all : List AluOp :=
  [.add, .sub, .mul, .div, .and, .or, .xor, .shl, .shra, .shrl, .cmp, .tst]

/-- `CMP` and `TST` compute flags only. -/
def AluOp.writesBack : AluOp → Bool
  | .cmp | .tst => false
  | _ => true

/-- Jump conditions over the flags of the previous instruction. -/
inductive Cond where
  | eq | ne | g | ge | a | ae | l | le | b | be | o | no | s | ns
  deriving DecidableEq, Repr

def Cond.all : List Cond :=
  [.eq, .ne, .g, .ge, .a, .ae, .l, .le, .b, .be, .o, .no, .s, .ns]

inductive Instr where
  | nop
  | input (dest id : Register)
  | call (addr : UInt16)
  | ret (extra : UInt8)
  | load (dest addr : Register)
  | loadImm (dest : Register) (addr : UInt16)
  | mov (dest src : Register)
  | movImm (dest : Register) (value : UInt16)
  | push (src : Register)
  | pop (dest : Register)
  | alu (op : AluOp) (dest src : Register)
  | color (src : Register)
  | pixel (x y : Register)
  | stor (src addr : Register)
  | storImm (src : Register) (addr : UInt16)
  | time (dest : Register)
  | timerRst
  | rnd (dest : Register)
  | jmp (target : Register)
  | jmpImm (addr : UInt16)
  | jump (cond : Cond) (addr : UInt16)
  | unknown (code : UInt8)
  deriving DecidableEq, Repr

namespace Instr

/-- The instruction an opcode and its operands stand for. -/
def of : (op : Opcode) → Operands UInt16 op.format → Instr
  | .nop, .bare => .nop
  | .input, .regReg dest id => .input dest id
  | .call, .addr imm => .call imm
  | .ret, .byte imm => .ret imm
  | .load, .regReg dest addr => .load dest addr
  | .loadi, .regImm dest imm => .loadImm dest imm
  | .mov, .regReg dest src => .mov dest src
  | .movi, .regImm dest imm => .movImm dest imm
  | .push, .reg src => .push src
  | .pop, .reg dest => .pop dest
  | .add, .regReg dest src => .alu .add dest src
  | .sub, .regReg dest src => .alu .sub dest src
  | .mul, .regReg dest src => .alu .mul dest src
  | .div, .regReg dest src => .alu .div dest src
  | .and, .regReg dest src => .alu .and dest src
  | .or, .regReg dest src => .alu .or dest src
  | .xor, .regReg dest src => .alu .xor dest src
  | .shl, .regReg dest src => .alu .shl dest src
  | .shra, .regReg dest src => .alu .shra dest src
  | .shrl, .regReg dest src => .alu .shrl dest src
  | .cmp, .regReg dest src => .alu .cmp dest src
  | .tst, .regReg dest src => .alu .tst dest src
  | .color, .reg src => .color src
  | .pixel, .regReg x y => .pixel x y
  | .stor, .regReg src addr => .stor src addr
  | .stori, .regImm src imm => .storImm src imm
  | .time, .reg dest => .time dest
  | .timerst, .bare => .timerRst
  | .rnd, .reg dest => .rnd dest
  | .jmp, .reg target => .jmp target
  | .jmpi, .addr imm => .jmpImm imm
  | .jeq, .addr imm => .jump .eq imm
  | .jne, .addr imm => .jump .ne imm
  | .jg, .addr imm => .jump .g imm
  | .jge, .addr imm => .jump .ge imm
  | .ja, .addr imm => .jump .a imm
  | .jae, .addr imm => .jump .ae imm
  | .jl, .addr imm => .jump .l imm
  | .jle, .addr imm => .jump .le imm
  | .jb, .addr imm => .jump .b imm
  | .jbe, .addr imm => .jump .be imm
  | .jo, .addr imm => .jump .o imm
  | .jno, .addr imm => .jump .no imm
  | .js, .addr imm => .jump .s imm
  | .jns, .addr imm => .jump .ns imm

/-- The instruction in a code word. Every code word is one: a first byte outside the table is
`unknown`, and bytes that an instruction does not use make no difference. -/
def decode (w : CodeWord) : Instr :=
  let r1 := Register.ofNibble w.first
  let r2 := Register.ofNibble w.second
  let addr := wordOf w.first w.second
  let imm := wordOf w.second w.third
  match Opcode.ofByte? w.code with
  | none => .unknown w.code
  | some op =>
    match op with
    | .nop => .nop
    | .input => .input r1 r2
    | .call => .call addr
    | .ret => .ret w.first
    | .load => .load r1 r2
    | .loadi => .loadImm r1 imm
    | .mov => .mov r1 r2
    | .movi => .movImm r1 imm
    | .push => .push r1
    | .pop => .pop r1
    | .add => .alu .add r1 r2
    | .sub => .alu .sub r1 r2
    | .mul => .alu .mul r1 r2
    | .div => .alu .div r1 r2
    | .and => .alu .and r1 r2
    | .or => .alu .or r1 r2
    | .xor => .alu .xor r1 r2
    | .shl => .alu .shl r1 r2
    | .shra => .alu .shra r1 r2
    | .shrl => .alu .shrl r1 r2
    | .cmp => .alu .cmp r1 r2
    | .tst => .alu .tst r1 r2
    | .color => .color r1
    | .pixel => .pixel r1 r2
    | .stor => .stor r1 r2
    | .stori => .storImm r1 imm
    | .time => .time r1
    | .timerst => .timerRst
    | .rnd => .rnd r1
    | .jmp => .jmp r1
    | .jmpi => .jmpImm addr
    | .jeq => .jump .eq addr
    | .jne => .jump .ne addr
    | .jg => .jump .g addr
    | .jge => .jump .ge addr
    | .ja => .jump .a addr
    | .jae => .jump .ae addr
    | .jl => .jump .l addr
    | .jle => .jump .le addr
    | .jb => .jump .b addr
    | .jbe => .jump .be addr
    | .jo => .jump .o addr
    | .jno => .jump .no addr
    | .js => .jump .s addr
    | .jns => .jump .ns addr

/-- Each opcode is decoded from the bytes that its format uses. -/
theorem decode_eq (w : CodeWord) :
    decode w =
      match Opcode.ofByte? w.code with
      | none => .unknown w.code
      | some op => .of op (.read w op.format) := by
  unfold decode
  cases Opcode.ofByte? w.code with
  | none => rfl
  | some op => cases op <;> rfl

theorem decode_encode (op : Opcode) (operands : Operands UInt16 op.format) :
    decode (encode op operands) = .of op operands := by
  simp [decode_eq, encode, Opcode.ofByte?_code, Operands.read_encode]

end Instr
end Console16
