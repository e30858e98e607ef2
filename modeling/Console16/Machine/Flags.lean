import Console16.Machine.Alu

/-!
# Console16.Machine.Flags

The four condition flags and the jump conditions over them. They describe the previous instruction
only: arithmetic sets all four and every other instruction clears them.

* `Flags.ofResult_carry_iff`: carry means that the result is no word.
* `Flags.ofResult_zero_iff`: zero means that the stored word is zero.
-/

namespace Console16

structure Flags where
  overflow : Bool
  carry : Bool
  zero : Bool
  sign : Bool
  deriving DecidableEq, Repr

def isNegative (v : UInt16) : Bool :=
  v &&& 0x8000 != 0

namespace Flags

def clear : Flags := ⟨false, false, false, false⟩

/-- Whether an operation left the range of signed words, seen from the sign bits of its operands and
its result: a sum of one sign with the other sign, a difference of two signs with the sign of the
subtrahend. -/
def overflows (op : AluOp) (d s r : Bool) : Bool :=
  match op with
  | .add => d && s && !r || !d && !s && r
  | .sub | .cmp => d && !s && !r || !d && s && r
  | _ => false

/-- The flags of an operation with its two operands and its result. -/
def ofResult (op : AluOp) (dest src : UInt16) (result : Int) : Flags :=
  let low := UInt16.ofInt result
  { overflow := overflows op (isNegative dest) (isNegative src) (isNegative low)
    carry := result < 0 || 0xFFFF < result
    zero := low == 0
    sign := isNegative low }

def holds (f : Flags) : Cond → Bool
  | .eq => f.zero
  | .ne => !f.zero
  | .g => !f.zero && f.sign == f.overflow
  | .ge => f.sign == f.overflow
  | .a => !f.carry && !f.zero
  | .ae => !f.carry
  | .l => f.sign != f.overflow
  | .le => f.sign != f.overflow || f.zero
  | .b => f.carry
  | .be => f.carry || f.zero
  | .o => f.overflow
  | .no => !f.overflow
  | .s => f.sign
  | .ns => !f.sign

theorem ofResult_carry_iff (op : AluOp) (dest src : UInt16) (result : Int) :
    (ofResult op dest src result).carry = true ↔ result < 0 ∨ 0xFFFF < result := by
  simp [ofResult]

theorem ofResult_zero_iff (op : AluOp) (dest src : UInt16) (result : Int) :
    (ofResult op dest src result).zero = true ↔ UInt16.ofInt result = 0 := by
  simp [ofResult]

end Flags
end Console16
