import Console16.Isa.Instr
import Mathlib.Logic.Function.Basic

/-!
# Console16.Proofs.Isa.Encoding

Code words against instructions. Every opcode with operands of its format is one instruction and has
one code word; every code word is one instruction, and only the bits that its format uses decide
which.

* `Instr.of_eq_iff`: no two opcodes, and no two operands, mean the same instruction.
* `Operands.carriedBy_iff`: what is read from a code word are the operands it carries.
* `Instr.decode_eq_iff`: when two code words decode alike.
* `code_words_are_instructions`: both directions together.
-/

namespace Console16

/-- The opcode and the operands an instruction is written with. A byte that is no opcode is written
with none. -/
def Instr.parts? : Instr → Option ((op : Opcode) × Operands UInt16 op.format)
  | .nop => some ⟨.nop, .bare⟩
  | .input dest id => some ⟨.input, .regReg dest id⟩
  | .call addr => some ⟨.call, .addr addr⟩
  | .ret extra => some ⟨.ret, .byte extra⟩
  | .load dest addr => some ⟨.load, .regReg dest addr⟩
  | .loadImm dest addr => some ⟨.loadi, .regImm dest addr⟩
  | .mov dest src => some ⟨.mov, .regReg dest src⟩
  | .movImm dest value => some ⟨.movi, .regImm dest value⟩
  | .push src => some ⟨.push, .reg src⟩
  | .pop dest => some ⟨.pop, .reg dest⟩
  | .alu .add dest src => some ⟨.add, .regReg dest src⟩
  | .alu .sub dest src => some ⟨.sub, .regReg dest src⟩
  | .alu .mul dest src => some ⟨.mul, .regReg dest src⟩
  | .alu .div dest src => some ⟨.div, .regReg dest src⟩
  | .alu .and dest src => some ⟨.and, .regReg dest src⟩
  | .alu .or dest src => some ⟨.or, .regReg dest src⟩
  | .alu .xor dest src => some ⟨.xor, .regReg dest src⟩
  | .alu .shl dest src => some ⟨.shl, .regReg dest src⟩
  | .alu .shra dest src => some ⟨.shra, .regReg dest src⟩
  | .alu .shrl dest src => some ⟨.shrl, .regReg dest src⟩
  | .alu .cmp dest src => some ⟨.cmp, .regReg dest src⟩
  | .alu .tst dest src => some ⟨.tst, .regReg dest src⟩
  | .color src => some ⟨.color, .reg src⟩
  | .pixel x y => some ⟨.pixel, .regReg x y⟩
  | .stor src addr => some ⟨.stor, .regReg src addr⟩
  | .storImm src addr => some ⟨.stori, .regImm src addr⟩
  | .time dest => some ⟨.time, .reg dest⟩
  | .timerRst => some ⟨.timerst, .bare⟩
  | .rnd dest => some ⟨.rnd, .reg dest⟩
  | .jmp target => some ⟨.jmp, .reg target⟩
  | .jmpImm addr => some ⟨.jmpi, .addr addr⟩
  | .jump .eq addr => some ⟨.jeq, .addr addr⟩
  | .jump .ne addr => some ⟨.jne, .addr addr⟩
  | .jump .g addr => some ⟨.jg, .addr addr⟩
  | .jump .ge addr => some ⟨.jge, .addr addr⟩
  | .jump .a addr => some ⟨.ja, .addr addr⟩
  | .jump .ae addr => some ⟨.jae, .addr addr⟩
  | .jump .l addr => some ⟨.jl, .addr addr⟩
  | .jump .le addr => some ⟨.jle, .addr addr⟩
  | .jump .b addr => some ⟨.jb, .addr addr⟩
  | .jump .be addr => some ⟨.jbe, .addr addr⟩
  | .jump .o addr => some ⟨.jo, .addr addr⟩
  | .jump .no addr => some ⟨.jno, .addr addr⟩
  | .jump .s addr => some ⟨.js, .addr addr⟩
  | .jump .ns addr => some ⟨.jns, .addr addr⟩
  | .unknown _ => none

/-- A code word carries operands: a register in the low half of its byte, a value of sixteen bits in
two bytes with the high one first. -/
def Operands.CarriedBy (w : CodeWord) {f : Format} : Operands UInt16 f → Prop
  | .bare => True
  | .regReg r1 r2 => r1.val = w.first.toNat % 16 ∧ r2.val = w.second.toNat % 16
  | .reg r => r.val = w.first.toNat % 16
  | .regImm r imm =>
    r.val = w.first.toNat % 16 ∧ imm.toNat = 256 * w.second.toNat + w.third.toNat
  | .addr imm => imm.toNat = 256 * w.first.toNat + w.second.toNat
  | .byte imm => imm = w.first

/-! ## Operands -/

theorem Register.eq_ofNibble_iff (r : Register) (b : UInt8) :
    r = .ofNibble b ↔ r.val = b.toNat % 16 :=
  Fin.ext_iff

theorem eq_wordOf_iff (v : UInt16) (hi lo : UInt8) :
    v = wordOf hi lo ↔ v.toNat = 256 * hi.toNat + lo.toNat := by
  rw [← UInt16.toNat_inj, toNat_wordOf]

theorem Operands.carriedBy_iff {w : CodeWord} {f : Format} (o : Operands UInt16 f) :
    o.CarriedBy w ↔ o = .read w f := by
  cases o with
  | bare => simp [CarriedBy, read]
  | regReg r1 r2 => simp [CarriedBy, read, Register.eq_ofNibble_iff]
  | reg r => simp [CarriedBy, read, Register.eq_ofNibble_iff]
  | regImm r imm => simp [CarriedBy, read, Register.eq_ofNibble_iff, eq_wordOf_iff]
  | addr imm => simp [CarriedBy, read, eq_wordOf_iff]
  | byte imm => simp [CarriedBy, read]

namespace Instr

theorem parts?_of (op : Opcode) (o : Operands UInt16 op.format) :
    (of op o).parts? = some ⟨op, o⟩ := by
  cases op <;> cases o <;> rfl

theorem eq_of_parts? {i : Instr} {p : (op : Opcode) × Operands UInt16 op.format}
    (h : i.parts? = some p) : i = of p.1 p.2 := by
  cases i with
  | alu op dest src => cases op <;> cases h <;> rfl
  | jump cond addr => cases cond <;> cases h <;> rfl
  | unknown code => cases h
  | _ => cases h; rfl

theorem of_eq_iff {op : Opcode} {o : Operands UInt16 op.format} {i : Instr} :
    of op o = i ↔ i.parts? = some ⟨op, o⟩ := by
  constructor
  · rintro rfl
    exact parts?_of op o
  · intro h
    exact (eq_of_parts? h).symm

theorem of_inj {op : Opcode} {o o' : Operands UInt16 op.format} : of op o = of op o' ↔ o = o' := by
  rw [of_eq_iff, parts?_of]
  simp [eq_comm]

/-! ## Decoding -/

variable {w w' : CodeWord}

theorem decode_of_code {op : Opcode} (h : op.code = w.code) :
    decode w = of op (.read w op.format) := by
  rw [decode_eq, ← h, Opcode.ofByte?_code]

theorem decode_of_no_code (h : ∀ op : Opcode, op.code ≠ w.code) :
    decode w = .unknown w.code := by
  have hnone : Opcode.ofByte? w.code = none := by
    rw [Option.eq_none_iff_forall_ne_some]
    intro op hop
    exact h op (Opcode.eq_of_ofByte? hop).symm
  rw [decode_eq, hnone]

theorem decode_eq_decode_encode_iff {op : Opcode} (h : op.code = w.code)
    (o : Operands UInt16 op.format) : decode w = decode (encode op o) ↔ o.CarriedBy w := by
  rw [decode_encode, decode_of_code h, of_inj, Operands.carriedBy_iff, eq_comm]

theorem decode_cases (w : CodeWord) :
    (∃ op : Opcode, op.code = w.code ∧ decode w = of op (.read w op.format)) ∨
      (∀ op : Opcode, op.code ≠ w.code) ∧ decode w = .unknown w.code := by
  by_cases h : ∃ op : Opcode, op.code = w.code
  · obtain ⟨op, hop⟩ := h
    exact .inl ⟨op, hop, decode_of_code hop⟩
  · exact .inr ⟨not_exists.1 h, decode_of_no_code (not_exists.1 h)⟩

theorem code_eq_of_decode_eq (h : decode w = decode w') : w.code = w'.code := by
  rcases decode_cases w with ⟨op, hop, hw⟩ | ⟨-, hw⟩ <;>
    rcases decode_cases w' with ⟨op', hop', hw'⟩ | ⟨-, hw'⟩ <;> rw [hw, hw'] at h
  · have hparts := congrArg parts? h
    rw [parts?_of, parts?_of] at hparts
    obtain rfl : op = op' := congrArg Sigma.fst (Option.some.inj hparts)
    exact hop.symm.trans hop'
  · have hparts := parts?_of op (.read w op.format)
    rw [h] at hparts
    cases hparts
  · have hparts := parts?_of op' (.read w' op'.format)
    rw [← h] at hparts
    cases hparts
  · exact Instr.unknown.inj h

/-- Bits that the format does not use make no difference, and all others make one. -/
theorem decode_eq_iff :
    decode w = decode w' ↔ w.code = w'.code ∧
      ∀ op : Opcode, op.code = w.code →
        ∀ o : Operands UInt16 op.format, o.CarriedBy w ↔ o.CarriedBy w' := by
  constructor
  · intro h
    have hcode := code_eq_of_decode_eq h
    refine ⟨hcode, fun op hop o => ?_⟩
    rw [← decode_eq_decode_encode_iff hop, ← decode_eq_decode_encode_iff (hop.trans hcode), h]
  · rintro ⟨hcode, hcarried⟩
    rcases decode_cases w with ⟨op, hop, hw⟩ | ⟨hno, hw⟩
    · have hread := (hcarried op hop _).1 ((Operands.carriedBy_iff _).2 rfl)
      rw [hw, decode_of_code (hop.trans hcode), of_inj]
      exact (Operands.carriedBy_iff _).1 hread
    · rw [hw, decode_of_no_code (hcode ▸ hno), hcode]

end Instr

theorem encode_injective :
    Function.Injective fun p : (op : Opcode) × Operands UInt16 op.format => encode p.1 p.2 := by
  intro p q h
  have hparts := congrArg (fun w => (Instr.decode w).parts?) h
  simp only [Instr.decode_encode, Instr.parts?_of] at hparts
  exact Option.some.inj hparts

/-- Encoding and decoding are inverse to each other. An opcode with operands of its format decodes
from its code word as the one instruction that is written so, and no two have the same code word. A
code word whose first byte is no opcode is unknown; any other decodes as the code word of exactly one
choice of operands, those it carries, whatever its other bits are. -/
theorem code_words_are_instructions :
    (∀ (op : Opcode) (o : Operands UInt16 op.format),
      (encode op o).code = op.code ∧ o.CarriedBy (encode op o) ∧
        ∀ i, Instr.decode (encode op o) = i ↔ i.parts? = some ⟨op, o⟩) ∧
    (Function.Injective fun p : (op : Opcode) × Operands UInt16 op.format => encode p.1 p.2) ∧
    ∀ w : CodeWord,
      ((∀ op : Opcode, op.code ≠ w.code) → Instr.decode w = .unknown w.code) ∧
      (∀ op : Opcode, op.code = w.code →
        (∃! o, Instr.decode w = Instr.decode (encode op o)) ∧
        ∀ o, Instr.decode w = Instr.decode (encode op o) ↔ o.CarriedBy w) ∧
      ∀ w' : CodeWord, Instr.decode w = Instr.decode w' ↔ w.code = w'.code ∧
        ∀ op : Opcode, op.code = w.code →
          ∀ o : Operands UInt16 op.format, o.CarriedBy w ↔ o.CarriedBy w' := by
  refine ⟨fun op o => ⟨Operands.encode_code _ _, ?_, fun i => ?_⟩, encode_injective, fun w =>
    ⟨Instr.decode_of_no_code, fun op hop => ⟨?_, Instr.decode_eq_decode_encode_iff hop⟩,
      fun w' => Instr.decode_eq_iff⟩⟩
  · rw [Operands.carriedBy_iff, encode, Operands.read_encode]
  · rw [Instr.decode_encode, Instr.of_eq_iff]
  · simp only [Instr.decode_eq_decode_encode_iff hop, Operands.carriedBy_iff]
    exact existsUnique_eq

/-- A code word of `LOADI` with bits it does not use, and a byte that is no opcode. -/
theorem code_words_are_instructions_of_loadi :
    Opcode.loadi.code = 0x05 ∧
      (∃! o, Instr.decode ⟨0x05, 0xf2, 0x12, 0x34⟩ = Instr.decode (encode .loadi o)) ∧
      Instr.decode ⟨0x05, 0xf2, 0x12, 0x34⟩ = .loadImm 2 0x1234 ∧
      (∀ op : Opcode, op.code ≠ 0x20) ∧ Instr.decode ⟨0x20, 1, 2, 3⟩ = .unknown 0x20 := by
  have hno : ∀ op : Opcode, op.code ≠ 0x20 := by
    intro op
    cases op <;> decide
  obtain ⟨-, -, hwords⟩ := code_words_are_instructions
  obtain ⟨-, hknown, -⟩ := hwords ⟨0x05, 0xf2, 0x12, 0x34⟩
  obtain ⟨hunknown, -, -⟩ := hwords ⟨0x20, 1, 2, 3⟩
  obtain ⟨hunique, hcarried⟩ := hknown .loadi rfl
  exact ⟨rfl, hunique, (hcarried (.regImm 2 0x1234)).2 ⟨rfl, rfl⟩, hno, hunknown hno⟩

end Console16
