import Console16.Isa.Opcode
import Console16.Isa.Register

/-!
# Console16.Isa.Operands

Operands, typed by their format, and the four bytes an instruction occupies. The type of 16-bit
operands is a parameter: a written line may still hold a label name there, a placed one holds the
value.

* `Operands.read_encode`: the operand bytes read back in the format they were written in.
* `wordOf_bytes`: a word is its high byte followed by its low byte.
-/

namespace Console16

/-- The bytes of every instruction. -/
def codeWordSize : Nat := 4

/-- One encoded instruction: the opcode byte and the three operand bytes after it. -/
structure CodeWord where
  code : UInt8
  first : UInt8
  second : UInt8
  third : UInt8
  deriving DecidableEq, Repr

namespace CodeWord

def toList (w : CodeWord) : List UInt8 :=
  [w.code, w.first, w.second, w.third]

@[simp] theorem length_toList (w : CodeWord) : w.toList.length = codeWordSize := rfl

end CodeWord

def hiByte (v : UInt16) : UInt8 := (v >>> 8).toUInt8

def loByte (v : UInt16) : UInt8 := v.toUInt8

/-- The word with given high and low bytes. -/
def wordOf (hi lo : UInt8) : UInt16 :=
  UInt16.ofNat (256 * hi.toNat + lo.toNat)

theorem toNat_wordOf (hi lo : UInt8) : (wordOf hi lo).toNat = 256 * hi.toNat + lo.toNat := by
  have := hi.toNat_lt
  have := lo.toNat_lt
  simp only [wordOf, UInt16.toNat_ofNat']
  omega

theorem toNat_hiByte (v : UInt16) : (hiByte v).toNat = v.toNat / 256 := by
  have := v.toNat_lt
  simp only [hiByte, UInt16.toNat_toUInt8, UInt16.toNat_shiftRight, Nat.shiftRight_eq_div_pow]
  simp
  omega

theorem toNat_loByte (v : UInt16) : (loByte v).toNat = v.toNat % 256 := by
  simp [loByte]

@[simp] theorem wordOf_bytes (v : UInt16) : wordOf (hiByte v) (loByte v) = v := by
  apply UInt16.toNat_inj.1
  rw [toNat_wordOf, toNat_hiByte, toNat_loByte]
  omega

theorem Except.map_eq_ok_iff {E T U : Type} {g : T → U} {x : Except E T} {u : U} :
    x.map g = .ok u ↔ ∃ t, x = .ok t ∧ g t = u := by
  rcases x with e | t <;> simp [Except.map]

theorem Except.map_eq_error_iff {E T U : Type} {g : T → U} {x : Except E T} {e : E} :
    x.map g = .error e ↔ x = .error e := by
  rcases x with e' | t <;> simp [Except.map]

/-- Operands in a given format, with 16-bit operands of type `T`. -/
inductive Operands (T : Type) : Format → Type where
  | bare : Operands T .bare
  | regReg (r1 r2 : Register) : Operands T .regReg
  | reg (r : Register) : Operands T .reg
  | regImm (r : Register) (imm : T) : Operands T .regImm
  | addr (imm : T) : Operands T .addr
  | byte (imm : UInt8) : Operands T .byte

namespace Operands

variable {T U E : Type} {f : Format}

/-- Replaces the 16-bit operand, if there is one. -/
def map (g : T → U) : Operands T f → Operands U f
  | .bare => .bare
  | .regReg r1 r2 => .regReg r1 r2
  | .reg r => .reg r
  | .regImm r imm => .regImm r (g imm)
  | .addr imm => .addr (g imm)
  | .byte imm => .byte imm

/-- Replaces the 16-bit operand, if there is one, by a step that may fail. -/
def tryMap (g : T → Except E U) : Operands T f → Except E (Operands U f)
  | .bare => .ok .bare
  | .regReg r1 r2 => .ok (.regReg r1 r2)
  | .reg r => .ok (.reg r)
  | .regImm r imm => (g imm).map (.regImm r)
  | .addr imm => (g imm).map .addr
  | .byte imm => .ok (.byte imm)

def imm? : Operands T f → Option T
  | .regImm _ imm => some imm
  | .addr imm => some imm
  | _ => none

/-- An opcode byte followed by these operands. Unused bytes are zero. -/
def encode (code : UInt8) : Operands UInt16 f → CodeWord
  | .bare => ⟨code, 0, 0, 0⟩
  | .regReg r1 r2 => ⟨code, r1.toByte, r2.toByte, 0⟩
  | .reg r => ⟨code, r.toByte, 0, 0⟩
  | .regImm r imm => ⟨code, r.toByte, hiByte imm, loByte imm⟩
  | .addr imm => ⟨code, hiByte imm, loByte imm, 0⟩
  | .byte imm => ⟨code, imm, 0, 0⟩

/-- The operands a code word carries in a given format. Registers are low nibbles; bytes the format
does not use are ignored. -/
def read (w : CodeWord) : (f : Format) → Operands UInt16 f
  | .bare => .bare
  | .regReg => .regReg (.ofNibble w.first) (.ofNibble w.second)
  | .reg => .reg (.ofNibble w.first)
  | .regImm => .regImm (.ofNibble w.first) (wordOf w.second w.third)
  | .addr => .addr (wordOf w.first w.second)
  | .byte => .byte w.first

@[simp] theorem encode_code (code : UInt8) (o : Operands UInt16 f) :
    (o.encode code).code = code := by
  cases o <;> rfl

theorem read_encode (code : UInt8) (o : Operands UInt16 f) : read (o.encode code) f = o := by
  cases o <;> simp [read, encode, Register.ofNibble_toByte]

end Operands

/-- The bytes of an opcode with operands of its format. -/
def encode (op : Opcode) (operands : Operands UInt16 op.format) : CodeWord :=
  operands.encode op.code

end Console16
