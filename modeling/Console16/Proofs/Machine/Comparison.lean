import Console16.Proofs.Machine.Components
import Console16.Proofs.Machine.Effect
import Mathlib.Data.Nat.Bitwise

/-!
# Console16.Proofs.Machine.Comparison

Compare and branch. `CMP` and `SUB` leave flags in which all orders of their two operands can be
read: the unsigned one in carry and zero, the signed one in sign, overflow and zero. A conditional
jump right after them compares the operands, and clears the flags for the one after it.

* `signed_eq`, `isNegative_eq`: the sign of a word, by its value.
* `Flags.overflows_sub`, `Flags.sign_ne_overflow_iff`: the signed side, from bits of the result.
* `Flags.holds_iff`: a condition on the flags of a comparison is a comparison.
* `compare_and_branch`: the two instructions together, and a jump after them.
-/

namespace Console16

/-- What a jump condition says of two words that were compared. -/
def Cond.Compares (x y : UInt16) : Cond → Prop
  | .eq => x = y
  | .ne => x ≠ y
  | .a => y.toNat < x.toNat
  | .ae => y.toNat ≤ x.toNat
  | .b => x.toNat < y.toNat
  | .be => x.toNat ≤ y.toNat
  | .g => signed y < signed x
  | .ge => signed y ≤ signed x
  | .l => signed x < signed y
  | .le => signed x ≤ signed y
  | .o => signed x - signed y < -32768 ∨ 32767 < signed x - signed y
  | .no => -32768 ≤ signed x - signed y ∧ signed x - signed y ≤ 32767
  | .s => (x - y).toNat.testBit 15 = true
  | .ns => (x - y).toNat.testBit 15 = false

/-- The conditions that hold when no flag is set. -/
def Cond.holdsOnClear : Cond → Bool
  | .ne | .g | .ge | .a | .ae | .no | .ns => true
  | _ => false

theorem Flags.holds_clear (c : Cond) : Flags.clear.holds c = c.holdsOnClear := by
  cases c <;> rfl

/-! ## Words and their signs -/

theorem signed_eq (v : UInt16) :
    signed v = if v.toNat < 32768 then (v.toNat : Int) else v.toNat - 65536 := by
  rw [signed, ← Int16.toInt_toBitVec, UInt16.toBitVec_toInt16, BitVec.toInt_eq_toNat_cond,
    UInt16.toNat_toBitVec]
  by_cases h : v.toNat < 32768
  · rw [if_pos h, if_pos (by omega)]
  · rw [if_neg h, if_neg (by omega)]
    rfl

theorem signed_inj (x y : UInt16) : signed x = signed y ↔ x = y := by
  have hx := x.toNat_lt
  have hy := y.toNat_lt
  rw [← UInt16.toNat_inj, signed_eq, signed_eq]
  split <;> split <;> omega

theorem isNegative_eq (v : UInt16) : isNegative v = v.toNat.testBit 15 := by
  have hand : (v &&& 0x8000).toNat = (v.toNat.testBit 15).toNat * 2 ^ 15 := by
    rw [UInt16.toNat_and]
    exact Nat.and_two_pow v.toNat 15
  rw [isNegative, Bool.eq_iff_iff, bne_iff_ne, ne_eq, ← UInt16.toNat_inj, hand]
  cases v.toNat.testBit 15 <;> simp

theorem testBit_eq (v : UInt16) : v.toNat.testBit 15 = decide (32768 ≤ v.toNat) := by
  have hlt := v.toNat_lt
  rw [Nat.testBit_eq_decide_div_mod_eq, decide_eq_decide]
  omega

/-- The low word of an exact difference is the difference of the words. -/
theorem ofInt_sub (x y : UInt16) : UInt16.ofInt ((x.toNat : Int) - y.toNat) = x - y := by
  have hx := x.toNat_lt
  have hy := y.toNat_lt
  apply UInt16.toNat_inj.1
  rw [UInt16.ofInt, UInt16.toNat_ofNat', UInt16.toNat_sub]
  omega

/-! ## Flags of a comparison -/

namespace Flags

/-- The flags of a difference of two words, by the values of the words. -/
def ofDifference (x y : UInt16) : Flags where
  overflow := decide (signed x - signed y < -32768 ∨ 32767 < signed x - signed y)
  carry := decide (x.toNat < y.toNat)
  zero := decide (x = y)
  sign := (x - y).toNat.testBit 15

section
variable (x y : UInt16)

theorem overflows_sub :
    overflows .sub (isNegative x) (isNegative y) (isNegative (x - y)) =
      (ofDifference x y).overflow := by
  have hx := x.toNat_lt
  have hy := y.toNat_lt
  have hd := UInt16.toNat_sub x y
  simp only [isNegative_eq, testBit_eq]
  rw [Bool.eq_iff_iff]
  simp only [overflows, ofDifference, signed_eq, Bool.or_eq_true, Bool.and_eq_true,
    Bool.not_eq_true', decide_eq_true_eq, decide_eq_false_iff_not]
  -- by the signs of the two operands; the difference wraps at most once
  split <;> split <;> omega

theorem sign_ne_overflow_iff :
    (ofDifference x y).sign ≠ (ofDifference x y).overflow ↔ signed x < signed y := by
  have hx := x.toNat_lt
  have hy := y.toNat_lt
  have hd := UInt16.toNat_sub x y
  simp only [ofDifference, testBit_eq, ne_eq, decide_eq_decide, signed_eq]
  split <;> split <;> omega

/-- The flags that the subtraction leaves. -/
theorem ofResult_sub : ofResult .sub x y (compute .sub x y) = ofDifference x y := by
  have hx := x.toNat_lt
  have hy := y.toNat_lt
  have hlow : UInt16.ofInt (compute .sub x y) = x - y := ofInt_sub x y
  have hcarry : (decide (compute .sub x y < 0) || decide (0xFFFF < compute .sub x y)) =
      decide (x.toNat < y.toNat) := by
    have hval : compute .sub x y = (x.toNat : Int) - y.toNat := rfl
    rw [Bool.eq_iff_iff]
    simp only [Bool.or_eq_true, decide_eq_true_eq]
    omega
  have hzero : (x - y == 0) = decide (x = y) := by
    have hd := UInt16.toNat_sub x y
    rw [Bool.eq_iff_iff, beq_iff_eq, decide_eq_true_eq, ← UInt16.toNat_inj, ← UInt16.toNat_inj,
      hd, UInt16.toNat_zero]
    omega
  simp only [ofResult, hlow, overflows_sub, hcarry, hzero]
  rw [isNegative_eq]
  rfl

/-- A comparison leaves the flags of a subtraction. -/
theorem ofResult_of_compares {op : AluOp} (hop : op = .cmp ∨ op = .sub) :
    ofResult op x y (compute op x y) = ofDifference x y := by
  rcases hop with rfl | rfl
  · exact ofResult_sub x y
  · exact ofResult_sub x y

/-- After a comparison the conditions compare. -/
theorem holds_iff (c : Cond) : (ofDifference x y).holds c = true ↔ c.Compares x y := by
  have hzero : (ofDifference x y).zero = true ↔ x = y := decide_eq_true_iff
  have hunsigned : x = y ↔ x.toNat = y.toNat := UInt16.toNat_inj.symm
  have hsigned : x = y ↔ signed x = signed y := (signed_inj x y).symm
  have hcarry : (ofDifference x y).carry = true ↔ x.toNat < y.toNat := decide_eq_true_iff
  have hless := sign_ne_overflow_iff x y
  have hle : (ofDifference x y).sign = (ofDifference x y).overflow ↔ signed y ≤ signed x :=
    not_iff_not.1 (hless.trans Int.not_le.symm)
  cases c with
  | eq => exact hzero
  | ne => simp only [holds, Cond.Compares, Bool.not_eq_true', ← Bool.not_eq_true, hzero, ne_eq]
  | a =>
    simp only [holds, Cond.Compares, Bool.and_eq_true, Bool.not_eq_true', ← Bool.not_eq_true,
      hzero, hunsigned, hcarry]
    omega
  | ae =>
    simp only [holds, Cond.Compares, Bool.not_eq_true', ← Bool.not_eq_true, hcarry]
    omega
  | b => exact hcarry
  | be =>
    simp only [holds, Cond.Compares, Bool.or_eq_true, hzero, hunsigned, hcarry]
    omega
  | g =>
    simp only [holds, Cond.Compares, Bool.and_eq_true, Bool.not_eq_true', ← Bool.not_eq_true,
      beq_iff_eq, hzero, hsigned, hle]
    omega
  | ge => exact beq_iff_eq.trans hle
  | l => exact bne_iff_ne.trans hless
  | le =>
    simp only [holds, Cond.Compares, Bool.or_eq_true, bne_iff_ne, hzero, hsigned, hless]
    omega
  | o => exact decide_eq_true_iff
  | no =>
    simp only [holds, Cond.Compares, ofDifference, Bool.not_eq_true', decide_eq_false_iff_not]
    omega
  | s => exact Iff.rfl
  | ns => exact iff_of_eq (Bool.not_eq_true' _)

end

end Flags

instance (c : Cond) (x y : UInt16) : Decidable (c.Compares x y) :=
  decidable_of_iff _ (Flags.holds_iff x y c)

/-! ## Two instructions -/

theorem Cpu.mask_following {c : Cpu} (h : c.ip.toNat % 4 = 0) :
    c.following &&& 0xFFFC = c.ip + 4 := by
  refine and_mask_of_aligned ?_
  simp only [following, UInt16.toNat_add, UInt16.reduceToNat]
  omega

namespace Machine

variable {S K C : Type} [Screen S] [Keypad K] [Clock C] {m : Machine S K C}

theorem step_compare (halign : m.cpu.ip.toNat % 4 = 0) {op : AluOp} (hop : op = .cmp ∨ op = .sub)
    {a b : Register} (hcur : m.current = .alu op a b) :
    ∃ k, m.step = .next k ∧ k.cpu.ip = m.cpu.ip + 4 ∧ k.cpu.memory = m.cpu.memory ∧
      k.cpu.flags = .ofDifference (m.cpu.reg a) (m.cpu.reg b) := by
  refine ⟨_, step_eq hcur nofun, Cpu.mask_following halign, ?_, Flags.ofResult_of_compares _ _ hop⟩
  exact kept_of_work_alu Cpu.memory fun _ => rfl

theorem step_jump (halign : m.cpu.ip.toNat % 4 = 0) {c : Cond} {addr : UInt16}
    (hcur : m.current = .jump c addr) :
    ∃ k, m.step = .next k ∧
      k.cpu.ip = (if m.cpu.flags.holds c then addr &&& 0xFFFC else m.cpu.ip + 4) ∧
      k.cpu.flags = .clear := by
  refine ⟨_, step_eq hcur nofun, ?_, rfl⟩
  change (if m.cpu.flags.holds c then addr else m.cpu.following) &&& 0xFFFC = _
  split
  · rfl
  · exact Cpu.mask_following halign

end Machine

/-- A conditional jump after `CMP` or `SUB` goes where it says exactly when the operands compare as
its condition says. It leaves no flags, so a jump right after it goes by its condition alone. -/
theorem compare_and_branch {S K C : Type} [Screen S] [Keypad K] [Clock C] {m : Machine S K C}
    (halign : m.cpu.ip.toNat % 4 = 0) {op : AluOp} (hop : op = .cmp ∨ op = .sub) {a b : Register}
    (hcompare : Instr.decode (m.cpu.memory.fetch m.cpu.ip) = .alu op a b) {c : Cond}
    {addr : UInt16}
    (hjump : Instr.decode (m.cpu.memory.fetch (m.cpu.ip + 4)) = .jump c addr) :
    ∃ k, m.run 2 = .next k ∧
      k.cpu.ip =
        (if c.Compares (m.cpu.reg a) (m.cpu.reg b) then addr &&& 0xFFFC else m.cpu.ip + 8) ∧
      k.cpu.flags = .clear ∧
      ∀ c' addr', Instr.decode (k.cpu.memory.fetch k.cpu.ip) = .jump c' addr' →
        ∃ p, k.step = .next p ∧
          p.cpu.ip = if c'.holdsOnClear then addr' &&& 0xFFFC else k.cpu.ip + 4 := by
  obtain ⟨q, hq, hip, hmemory, hflags⟩ := Machine.step_compare halign hop hcompare
  have hcur : q.current = .jump c addr := by
    rw [Machine.current, hmemory, hip, hjump]
  have hqalign : q.cpu.ip.toNat % 4 = 0 := by
    have := Machine.aligned_step halign
    rwa [hq] at this
  obtain ⟨k, hk, hkip, hkflags⟩ := Machine.step_jump hqalign hcur
  have hkalign : k.cpu.ip.toNat % 4 = 0 := by
    have := Machine.aligned_step hqalign
    rwa [hk] at this
  refine ⟨k, ?_, ?_, hkflags, fun c' addr' hnext => ?_⟩
  · simp only [Machine.run, hq, hk]
  · rw [hkip, hflags, hip, UInt16.add_assoc]
    simp only [Flags.holds_iff]
    rfl
  · obtain ⟨p, hp, hpip, -⟩ := Machine.step_jump hkalign hnext
    rw [hkflags, Flags.holds_clear] at hpip
    exact ⟨p, hp, hpip⟩

/-- The least word and the greatest one: `CMP A B`, `JL 0xb`, and `JNE 0x20` where that goes. -/
theorem exists_boundary_comparison :
    ∃ m₀ m : Machine PixelLog KeyState ManualClock,
      Machine.boot [0x14, 2, 3, 0, 0x38, 0, 0x0b, 0, 0x33, 0, 0x20, 0] PixelLog.empty
          (KeyState.released .empty) (⟨0, 1⟩ : ManualClock) (.ofSeed 7) .default = .ok m₀ ∧
        m = (m₀.setReg 2 0x8000).setReg 3 0x7fff ∧ m.cpu.ip = 0 ∧
        Instr.decode (m.cpu.memory.fetch m.cpu.ip) = .alu .cmp 2 3 ∧
        Instr.decode (m.cpu.memory.fetch (m.cpu.ip + 4)) = .jump .l 0x0b ∧
        m.cpu.reg 2 = 0x8000 ∧ m.cpu.reg 3 = 0x7fff :=
  ⟨_, _, rfl, rfl, rfl, rfl, rfl, rfl, rfl⟩

theorem compare_and_branch_of_boundary :
    ∃ m k : Machine PixelLog KeyState ManualClock, m.cpu.ip.toNat % 4 = 0 ∧
      Instr.decode (m.cpu.memory.fetch m.cpu.ip) = .alu .cmp 2 3 ∧
      Instr.decode (m.cpu.memory.fetch (m.cpu.ip + 4)) = .jump .l 0x0b ∧
      m.cpu.reg 2 = 0x8000 ∧ m.cpu.reg 3 = 0x7fff ∧
      m.run 2 = .next k ∧ k.cpu.ip = 8 ∧ k.cpu.flags = .clear := by
  obtain ⟨-, m, -, -, hip, hcompare, hjump, ha, hb⟩ := exists_boundary_comparison
  have halign : m.cpu.ip.toNat % 4 = 0 := by
    rw [hip]
    rfl
  obtain ⟨k, hrun, hkip, hflags, -⟩ := compare_and_branch halign (.inl rfl) hcompare hjump
  rw [ha, hb] at hkip
  exact ⟨m, k, halign, hcompare, hjump, ha, hb, hrun, hkip, hflags⟩

end Console16
