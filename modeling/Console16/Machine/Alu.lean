import Console16.Isa.Instr

/-!
# Console16.Machine.Alu

The arithmetic unit: the exact integer result of an operation on two words. A word is stored from
it by keeping the low sixteen bits; the flags look at the whole of it.

* `compute_bounds`: results stay far inside 64 bits.
-/

namespace Console16

/-- A word read as a two's complement number. -/
def signed (v : UInt16) : Int :=
  v.toInt16.toInt

/-- The count of a shift: the low five bits of the source. -/
def shiftCount (src : UInt16) : Nat :=
  src.toNat % 32

/-- The result before it is cut to a word. A division by zero gives `0xFFFF`; an arithmetic shift
by more than fifteen leaves only copies of the sign. -/
def compute (op : AluOp) (dest src : UInt16) : Int :=
  let d := dest.toNat
  let s := src.toNat
  let k := shiftCount src
  match op with
  | .add => d + s
  | .sub | .cmp => (d : Int) - s
  | .mul => d * s
  | .div => if s = 0 then 0xFFFF else (d / s : Nat)
  | .and | .tst => (d &&& s : Nat)
  | .or => (d ||| s : Nat)
  | .xor => (d ^^^ s : Nat)
  | .shl => (d <<< k : Nat)
  | .shra => (signed dest >>> min k 15) % 65536
  | .shrl => (d >>> k : Nat)

theorem compute_bounds (op : AluOp) (dest src : UInt16) :
    -65535 ≤ compute op dest src ∧ compute op dest src ≤ 65535 * 2147483648 := by
  have hd := dest.toNat_lt
  have hs := src.toNat_lt
  have hand : dest.toNat &&& src.toNat ≤ dest.toNat := Nat.and_le_left
  have hor : dest.toNat ||| src.toNat < 2 ^ 16 := Nat.or_lt_two_pow hd hs
  have hxor : dest.toNat ^^^ src.toNat < 2 ^ 16 := Nat.xor_lt_two_pow hd hs
  cases op <;> simp only [compute]
  case add => omega
  case sub => omega
  case cmp => omega
  case mul =>
    have : dest.toNat * src.toNat ≤ 65535 * 65535 := Nat.mul_le_mul (by omega) (by omega)
    omega
  case div =>
    split
    · omega
    · have := Nat.div_le_self dest.toNat src.toNat
      have := Int.natCast_nonneg (dest.toNat / src.toNat)
      omega
  case and => omega
  case tst => omega
  case or => omega
  case xor => omega
  case shl =>
    have hk : 2 ^ shiftCount src ≤ 2 ^ 31 :=
      Nat.pow_le_pow_right (by decide) (by simp only [shiftCount]; omega)
    have : dest.toNat * 2 ^ shiftCount src ≤ 65535 * 2 ^ 31 := Nat.mul_le_mul (by omega) hk
    rw [Nat.shiftLeft_eq]
    omega
  case shra => omega
  case shrl =>
    have := Nat.shiftRight_le dest.toNat (shiftCount src)
    have := Int.natCast_nonneg (dest.toNat >>> shiftCount src)
    omega

end Console16
