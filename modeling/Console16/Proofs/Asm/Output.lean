import Console16.Asm.Program
import Mathlib.Algebra.Order.Ring.Nat

/-!
# Console16.Proofs.Asm.Output

The bytes of statements and the output of a program. Each statement has bytes of its own: its code
word, or its data with zeros up to a multiple of four. The output is made in another way, since behind
data it is filled up as a whole. Both agree because before every statement the output has a multiple
of four bytes.

* `Stmt.length_bytes`: a statement has exactly `byteLen` bytes.
* `Stmt.toList_emit`: what one statement more puts out.
* `foldl_emit`: what all statements put out, by induction on the statements.
* `Program.image_eq`: the image is the bytes of the statements, one after another.
-/

namespace Console16

/-- Bytes filled up with zeros to the next multiple of the instruction size. -/
def padded (bytes : List UInt8) : List UInt8 :=
  bytes ++ List.replicate (alignUp bytes.length - bytes.length) 0

/-- The bytes of a placed statement. -/
def Stmt.bytes : Stmt UInt16 → List UInt8
  | .instr _ op operands => (encode op operands).toList
  | .data _ bs => padded bs

@[simp] theorem length_padded (bs : List UInt8) : (padded bs).length = alignUp bs.length := by
  have := le_alignUp bs.length
  simp only [padded, List.length_append, List.length_replicate]
  omega

theorem padded_eq (bs : List UInt8) :
    padded bs = bs ++ List.replicate ((4 - bs.length % 4) % 4) 0 := by
  have hzeros : alignUp bs.length - bs.length = (4 - bs.length % 4) % 4 := by
    simp only [alignUp, codeWordSize]
    omega
  rw [padded, hzeros]

theorem Stmt.length_bytes (s : Stmt UInt16) : s.bytes.length = s.byteLen := by
  cases s <;> simp [bytes, byteLen]

theorem alignUp_add {a : Nat} (h : 4 ∣ a) (b : Nat) : alignUp (a + b) = a + alignUp b := by
  simp only [alignUp, codeWordSize]
  omega

theorem toList_filled (out : Array UInt8) : (filled out).toList = padded out.toList := by
  rw [filled, Array.toList_appendList, padded, Array.length_toList]

theorem padded_append {out : List UInt8} (h : 4 ∣ out.length) (row : List UInt8) :
    padded (out ++ row) = out ++ padded row := by
  rw [padded, padded, List.length_append, alignUp_add h, Nat.add_sub_add_left, List.append_assoc]

theorem Stmt.toList_emit {out : Array UInt8} (h : 4 ∣ out.size) (s : Stmt UInt16) :
    (s.emit out).toList = out.toList ++ s.bytes := by
  rw [← Array.length_toList] at h
  cases s with
  | instr line op operands => exact Array.toList_appendList
  | data line row => rw [emit, toList_filled, Array.toList_appendList, padded_append h, bytes]

theorem foldl_emit (out : Array UInt8) (h : 4 ∣ out.size) (stmts : List (Stmt UInt16)) :
    (stmts.foldl Stmt.emit out).toList = out.toList ++ stmts.flatMap Stmt.bytes := by
  induction stmts generalizing out with
  | nil => exact (List.append_nil _).symm
  | cons s stmts ih =>
    have hnext : 4 ∣ (s.emit out).size := by
      rw [← Array.length_toList, Stmt.toList_emit h, List.length_append, s.length_bytes,
        Array.length_toList]
      exact Nat.dvd_add h s.byteLen_dvd
    rw [List.foldl_cons, ih _ hnext, Stmt.toList_emit h, List.flatMap_cons, List.append_assoc]

theorem Program.image_eq (p : Program) : p.image = p.stmts.flatMap Stmt.bytes :=
  foldl_emit #[] (Nat.dvd_zero 4) p.stmts

end Console16
