import Console16.Isa.Operands
import Console16.Source.Span

/-!
# Console16.Asm.Stmt

Statements: one instruction, or a row of data bytes. Every statement takes a multiple of four bytes
in the image, so instructions stay aligned; data is filled up with zeros.

* `Stmt.byteLen_dvd`: the size of a statement is a multiple of four.
-/

namespace Console16

/-- A label name used as an operand. -/
structure LabelRef where
  name : String
  line : Nat
  span : Span
  deriving DecidableEq, Repr

/-- A 16-bit operand as it is written. -/
inductive Target where
  | value (v : UInt16)
  | label (ref : LabelRef)
  deriving DecidableEq, Repr

/-- The next multiple of the instruction size. -/
def alignUp (n : Nat) : Nat :=
  (n + (codeWordSize - 1)) / codeWordSize * codeWordSize

/-- One statement with the source line it stands on. -/
inductive Stmt (T : Type) where
  | instr (line : Nat) (op : Opcode) (operands : Operands T op.format)
  | data (line : Nat) (bytes : List UInt8)

namespace Stmt

variable {T : Type}

/-- The bytes a statement takes in the image. -/
def byteLen : Stmt T → Nat
  | .instr .. => codeWordSize
  | .data _ bytes => alignUp bytes.length

def line : Stmt T → Nat
  | .instr n .. => n
  | .data n _ => n

end Stmt

theorem le_alignUp (n : Nat) : n ≤ alignUp n := by
  simp only [alignUp, codeWordSize]
  omega

theorem alignUp_dvd (n : Nat) : codeWordSize ∣ alignUp n :=
  Nat.dvd_mul_left ..

theorem Stmt.byteLen_dvd {T : Type} (s : Stmt T) : codeWordSize ∣ s.byteLen := by
  cases s with
  | instr => exact Nat.dvd_refl _
  | data _ bs => exact alignUp_dvd _

end Console16
