import Console16.Proofs.Machine.Comparison
import Mathlib.Data.Int.ModEq
import Mathlib.Data.Rat.Floor

/-!
# Console16.Proofs.Machine.Arithmetic

The arithmetic unit against whole numbers. A result is the number that arithmetic gives, quotients
rounded down, and the register gets it modulo `2^16`; the flags tell whether that lost anything, read
as unsigned words (carry) or as signed ones (overflow).

* `compute_makes`: the result of each operation, as a number.
* `Flags.tells_ofResult`: three of the flags, for any number.
* `Flags.overflow_ofResult_iff`: overflow means that the range of signed words was left.
* `arithmetic_is_exact`: result, flags and the instruction that uses them.
-/

namespace Console16

/-- A number of the bits that `f` makes of the bits of two words. -/
def MadeOfBits (f : Bool → Bool → Bool) (d s : UInt16) (v : Int) : Prop :=
  ∃ n : Nat, v = n ∧ ∀ i, n.testBit i = f (d.toNat.testBit i) (s.toNat.testBit i)

/-- What an operation makes of two words. A shift goes by at most 31 places. -/
def AluOp.Makes (d s : UInt16) (v : Int) : AluOp → Prop
  | .add => v = (d.toNat : Int) + s.toNat
  | .sub | .cmp => v = (d.toNat : Int) - s.toNat
  | .mul => v = (d.toNat : Int) * s.toNat
  | .div => v = if s.toNat = 0 then 65535 else ⌊(d.toNat : ℚ) / s.toNat⌋
  | .and | .tst => MadeOfBits (· && ·) d s v
  | .or => MadeOfBits (· || ·) d s v
  | .xor => MadeOfBits (· ^^ ·) d s v
  | .shl => v = (d.toNat : Int) * 2 ^ (s.toNat % 32)
  | .shrl => v = ⌊(d.toNat : ℚ) / 2 ^ (s.toNat % 32)⌋
  | .shra => 0 ≤ v ∧ v ≤ 65535 ∧ v ≡ ⌊(signed d : ℚ) / 2 ^ (s.toNat % 32)⌋ [ZMOD 65536]

/-- The result is no signed word, the operands read as signed words. -/
def AluOp.LeavesRange (d s : UInt16) : AluOp → Prop
  | .add => signed d + signed s < -32768 ∨ 32767 < signed d + signed s
  | .sub | .cmp => signed d - signed s < -32768 ∨ 32767 < signed d - signed s
  | _ => False

/-- The operations whose result is always a word. -/
def AluOp.StaysWord (op : AluOp) : Prop :=
  op ∈ [.div, .and, .or, .xor, .shra, .shrl, .tst]

theorem AluOp.writesBack_iff (op : AluOp) : op.writesBack = true ↔ op ≠ .cmp ∧ op ≠ .tst := by
  cases op <;> decide

/-! ## Results -/

theorem signed_bounds (v : UInt16) : -32768 ≤ signed v ∧ signed v < 32768 := by
  have hv := v.toNat_lt
  rw [signed_eq]
  split <;> omega

theorem floor_div_two_pow (z : Int) (k : Nat) : ⌊(z : ℚ) / 2 ^ k⌋ = z / 2 ^ k := by
  have h := Rat.floor_intCast_div_natCast z (2 ^ k)
  push_cast at h
  exact h

/-- A quotient by more than the number is large has only the sign left. -/
theorem ediv_of_abs_le {z p : Int} (hlo : -p ≤ z) (hhi : z < p) :
    z / p = if z < 0 then -1 else 0 := by
  split
  · have h : z / p = -1 ∧ z % p = z + p :=
      (Int.ediv_emod_unique (by omega)).2 ⟨by omega, by omega, by omega⟩
    exact h.1
  · exact Int.ediv_eq_zero_of_lt (by omega) hhi

theorem signed_shiftRight (d : UInt16) (k : Nat) : signed d >>> min k 15 = signed d / 2 ^ k := by
  obtain ⟨hlo, hhi⟩ := signed_bounds d
  rw [Int.shiftRight_eq_div_pow]
  rcases Nat.le_total k 15 with hk | hk
  · rw [Nat.min_eq_left hk]
    push_cast
    rfl
  · have hpow : (32768 : Int) ≤ 2 ^ k := by
      have h : 2 ^ 15 ≤ 2 ^ k := Nat.pow_le_pow_right (by decide) hk
      exact_mod_cast h
    rw [Nat.min_eq_right hk, ediv_of_abs_le (by omega) (by omega),
      ediv_of_abs_le (by omega) (by omega)]

theorem compute_makes (op : AluOp) (d s : UInt16) : op.Makes d s (compute op d s) := by
  cases op with
  | add => rfl
  | sub => rfl
  | cmp => rfl
  | mul => simp [AluOp.Makes, compute]
  | div =>
    simp only [AluOp.Makes, compute, Rat.floor_natCast_div_natCast]
    rfl
  | and => exact ⟨_, rfl, fun i => Nat.testBit_and ..⟩
  | tst => exact ⟨_, rfl, fun i => Nat.testBit_and ..⟩
  | or => exact ⟨_, rfl, fun i => Nat.testBit_or ..⟩
  | xor => exact ⟨_, rfl, fun i => Nat.testBit_xor ..⟩
  | shl =>
    simp only [AluOp.Makes, compute, shiftCount, Nat.shiftLeft_eq]
    push_cast
    rfl
  | shrl =>
    have h := floor_div_two_pow d.toNat (s.toNat % 32)
    simp only [Int.cast_natCast] at h
    simp only [AluOp.Makes, compute, shiftCount, Nat.shiftRight_eq_div_pow, h]
    push_cast
    rfl
  | shra =>
    simp only [AluOp.Makes, compute, shiftCount, signed_shiftRight, floor_div_two_pow]
    exact ⟨by omega, by omega, Int.mod_modEq _ _⟩

theorem bounds_of_madeOfBits {f : Bool → Bool → Bool} {d s : UInt16} {v : Int}
    (hf : f false false = false) (h : MadeOfBits f d s v) : 0 ≤ v ∧ v ≤ 65535 := by
  obtain ⟨n, rfl, hbits⟩ := h
  have hn : n < 2 ^ 16 := by
    apply Nat.lt_pow_two_of_testBit
    intro i hi
    have hpow : 2 ^ 16 ≤ 2 ^ i := Nat.pow_le_pow_right (by decide) hi
    rw [hbits, Nat.testBit_lt_two_pow (d.toNat_lt.trans_le hpow),
      Nat.testBit_lt_two_pow (s.toNat_lt.trans_le hpow), hf]
  omega

theorem compute_of_staysWord {op : AluOp} (hop : op.StaysWord) (d s : UInt16) :
    0 ≤ compute op d s ∧ compute op d s ≤ 65535 := by
  have hd := d.toNat_lt
  have hmakes := compute_makes op d s
  simp only [AluOp.StaysWord, List.mem_cons, List.not_mem_nil, or_false] at hop
  rcases hop with rfl | rfl | rfl | rfl | rfl | rfl | rfl
  · have := Nat.div_le_self d.toNat s.toNat
    have := Int.natCast_nonneg (d.toNat / s.toNat)
    simp only [compute]
    split <;> omega
  · exact bounds_of_madeOfBits rfl hmakes
  · exact bounds_of_madeOfBits rfl hmakes
  · exact bounds_of_madeOfBits rfl hmakes
  · exact ⟨hmakes.1, hmakes.2.1⟩
  · have := Nat.shiftRight_le d.toNat (shiftCount s)
    have := Int.natCast_nonneg (d.toNat >>> shiftCount s)
    simp only [compute]
    omega
  · exact bounds_of_madeOfBits rfl hmakes

/-! ## Flags -/

theorem toNat_ofInt (v : Int) : ((UInt16.ofInt v).toNat : Int) = v % 65536 := by
  rw [UInt16.ofInt, UInt16.toNat_ofNat']
  omega

namespace Flags

/-- What carry, zero and sign tell of a number. -/
structure Tells (f : Flags) (v : Int) : Prop where
  carry : f.carry = true ↔ v < 0 ∨ 65535 < v
  zero : f.zero = true ↔ v % 65536 = 0
  sign : f.sign = true ↔ 32768 ≤ v % 65536

theorem tells_ofResult (op : AluOp) (d s : UInt16) (v : Int) : (ofResult op d s v).Tells v := by
  have hlow := toNat_ofInt v
  constructor
  case carry => exact ofResult_carry_iff op d s v
  case zero =>
    rw [ofResult_zero_iff, ← UInt16.toNat_inj, UInt16.toNat_zero]
    omega
  case sign =>
    change isNegative (UInt16.ofInt v) = true ↔ _
    rw [isNegative_eq, testBit_eq, decide_eq_true_iff]
    omega

theorem overflows_add_iff (d s : UInt16) :
    overflows .add (isNegative d) (isNegative s)
      (isNegative (UInt16.ofInt ((d.toNat : Int) + s.toNat))) = true ↔
        AluOp.LeavesRange d s .add := by
  have hd := d.toNat_lt
  have hs := s.toNat_lt
  have hlow := toNat_ofInt ((d.toNat : Int) + s.toNat)
  simp only [overflows, AluOp.LeavesRange, isNegative_eq, testBit_eq, signed_eq, Bool.or_eq_true,
    Bool.and_eq_true, Bool.not_eq_true', decide_eq_true_eq, decide_eq_false_iff_not]
  -- by the signs of the two operands; the sum wraps at most once
  split <;> split <;> omega

theorem overflow_ofResult_iff (op : AluOp) (d s : UInt16) :
    (ofResult op d s (compute op d s)).overflow = true ↔ op.LeavesRange d s := by
  cases op with
  | add => exact overflows_add_iff d s
  | sub =>
    rw [ofResult_of_compares d s (.inr rfl)]
    exact decide_eq_true_iff
  | cmp =>
    rw [ofResult_of_compares d s (.inl rfl)]
    exact decide_eq_true_iff
  | _ => exact ⟨nofun, False.elim⟩

theorem carry_of_staysWord {op : AluOp} (hop : op.StaysWord) (d s : UInt16) :
    (ofResult op d s (compute op d s)).carry = false := by
  obtain ⟨hlo, hhi⟩ := compute_of_staysWord hop d s
  rw [← Bool.not_eq_true, (tells_ofResult op d s _).carry]
  omega

end Flags

/-! ## The instruction -/

namespace Machine

variable {S K C : Type} [Screen S] [Keypad K] [Clock C]

theorem step_alu {m : Machine S K C} {op : AluOp} {dest src : Register}
    (hcur : m.current = .alu op dest src) :
    ∃ k, m.step = .next k ∧
      k.cpu.flags = .ofResult op (m.cpu.reg dest) (m.cpu.reg src) (m.result op dest src) ∧
      k.cpu.memory = m.cpu.memory ∧
      ∀ r, k.cpu.reg r =
        if r = dest ∧ op.writesBack then .ofInt (m.result op dest src) else m.cpu.reg r := by
  refine ⟨_, step_eq hcur nofun, rfl, ?_, ?_⟩
  · exact kept_of_work_alu Cpu.memory fun _ => rfl
  · intro r
    change (m.work (.alu op dest src)).reg r = _
    rw [work_alu]
    by_cases hop : op.writesBack
    · simp [hop, Cpu.reg_setReg, eq_comm]
    · simp [hop]

end Machine

/-- The arithmetic unit is exact. Each operation makes of two words the number that arithmetic
gives, far inside 64 bits; carry, zero and sign tell of every number how it lies to the words, and
overflow of every result whether signed words hold it. The instruction stores the number modulo
`2^16` in its first register, `CMP` and `TST` store nothing. -/
theorem arithmetic_is_exact {S K C : Type} [Screen S] [Keypad K] [Clock C] (op : AluOp)
    (d s : UInt16) :
    -65535 ≤ compute op d s ∧ compute op d s ≤ 65535 * 2 ^ 31 ∧ op.Makes d s (compute op d s) ∧
      (∀ v, (Flags.ofResult op d s v).Tells v) ∧
      ((Flags.ofResult op d s (compute op d s)).overflow = true ↔ op.LeavesRange d s) ∧
      (op.StaysWord → (Flags.ofResult op d s (compute op d s)).carry = false) ∧
      ∀ (m : Machine S K C) (dest src : Register), m.current = .alu op dest src →
        m.cpu.reg dest = d → m.cpu.reg src = s →
        ∃ k, m.step = .next k ∧ k.cpu.flags = .ofResult op d s (compute op d s) ∧
          k.cpu.memory = m.cpu.memory ∧
          ∀ r, ((k.cpu.reg r).toNat : Int) =
            if r = dest ∧ op ≠ .cmp ∧ op ≠ .tst then compute op d s % 65536
            else (m.cpu.reg r).toNat := by
  obtain ⟨hlo, hhi⟩ := compute_bounds op d s
  refine ⟨hlo, hhi, compute_makes op d s, Flags.tells_ofResult op d s,
    Flags.overflow_ofResult_iff op d s, fun hop => Flags.carry_of_staysWord hop d s, ?_⟩
  rintro m dest src hcur rfl rfl
  obtain ⟨k, hk, hflags, hmemory, hreg⟩ := Machine.step_alu hcur
  refine ⟨k, hk, hflags, hmemory, fun r => ?_⟩
  simp only [hreg, AluOp.writesBack_iff]
  split
  · exact toNat_ofInt _
  · rfl

/-- `SHRA A B`, the least signed word shifted by 31. -/
theorem exists_long_shift :
    ∃ m₀ m : Machine PixelLog KeyState ManualClock,
      Machine.boot [0x12, 2, 3, 0] PixelLog.empty (KeyState.released .empty)
          (⟨0, 1⟩ : ManualClock) (.ofSeed 7) .default = .ok m₀ ∧
        m = (m₀.setReg 2 0x8000).setReg 3 0x1f ∧ m.current = .alu .shra 2 3 ∧
        m.cpu.reg 2 = 0x8000 ∧ m.cpu.reg 3 = 0x1f :=
  ⟨_, _, rfl, rfl, rfl, rfl, rfl⟩

theorem arithmetic_is_exact_of_long_shift :
    AluOp.shra.StaysWord ∧
      (Flags.ofResult .shra 0x8000 0x1f (compute .shra 0x8000 0x1f)).carry = false ∧
      ∃ m k : Machine PixelLog KeyState ManualClock, m.current = .alu .shra 2 3 ∧
        m.cpu.reg 2 = 0x8000 ∧ m.cpu.reg 3 = 0x1f ∧ m.step = .next k ∧
        ((k.cpu.reg 2).toNat : Int) = 0xffff := by
  have hop : AluOp.shra.StaysWord := by simp [AluOp.StaysWord]
  obtain ⟨-, m, -, -, hcur, hd, hs⟩ := exists_long_shift
  obtain ⟨-, -, -, -, -, hcarry, hstep⟩ :=
    arithmetic_is_exact (S := PixelLog) (K := KeyState) (C := ManualClock) .shra 0x8000 0x1f
  obtain ⟨k, hk, -, -, hreg⟩ := hstep m 2 3 hcur hd hs
  exact ⟨hop, hcarry hop, m, k, hcur, hd, hs, hk, hreg 2⟩

end Console16
