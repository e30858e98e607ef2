import Console16.Text.Hex
import Mathlib.Algebra.Order.Ring.Nat
import Mathlib.Tactic.Ring

/-!
# Console16.Proofs.Text.HexNumber

Hexadecimal digits as bytes and as a number. Digits go two to a byte from the left, after a zero if
their count is odd; packed that way they stand for the same number.

* `pack_eq_bytesOf`: packing from the right gives the same bytes.
* `bigEndian_bytesOf`: the bytes, highest first, are the number of the digits.
* `bytesOf_ofBytes`: bytes printed in digits of either case read back.
-/

namespace Console16.Text.Hex

/-- The number a row of digits stands for. -/
def number (ds : List Char) : Nat :=
  ds.foldl (fun n d => 16 * n + value d) 0

/-- The bytes of an even row of digits. -/
def pairs : List Char → List UInt8
  | hi :: lo :: ds => UInt8.ofNat (16 * value hi + value lo) :: pairs ds
  | _ => []

/-- The bytes of a row of digits. An odd row gets a zero in front. -/
def bytesOf (ds : List Char) : List UInt8 :=
  pairs (if ds.length % 2 = 1 then '0' :: ds else ds)

/-- The number a row of bytes stands for, highest byte first. -/
def bigEndian (bytes : List UInt8) : Nat :=
  bytes.foldl (fun n b => 256 * n + b.toNat) 0

theorem value_lt (c : Char) : value c < 16 := by
  unfold value digit?
  split
  · rename_i h
    have : c.toNat ≤ 57 := h.2
    simp only [Option.getD_some]
    omega
  · split
    · rename_i h
      have : c.toNat ≤ 102 := h.2
      simp only [Option.getD_some]
      omega
    · split
      · rename_i h
        have : c.toNat ≤ 70 := h.2
        simp only [Option.getD_some]
        omega
      · simp

/-! ## Rows of digits and of bytes -/

theorem number_fold (ds : List Char) (n : Nat) :
    ds.foldl (fun n d => 16 * n + value d) n = n * 16 ^ ds.length + number ds := by
  induction ds generalizing n with
  | nil => simp [number]
  | cons d ds ih =>
    simp only [number, List.foldl_cons, List.length_cons]
    rw [ih, ih (16 * 0 + _)]
    ring

theorem number_cons (d : Char) (ds : List Char) :
    number (d :: ds) = value d * 16 ^ ds.length + number ds := by
  rw [number, List.foldl_cons, number_fold]
  simp

theorem bigEndian_fold (bs : List UInt8) (n : Nat) :
    bs.foldl (fun n b => 256 * n + b.toNat) n = n * 256 ^ bs.length + bigEndian bs := by
  induction bs generalizing n with
  | nil => simp [bigEndian]
  | cons b bs ih =>
    simp only [bigEndian, List.foldl_cons, List.length_cons]
    rw [ih, ih (256 * 0 + _)]
    ring

theorem bigEndian_cons (b : UInt8) (bs : List UInt8) :
    bigEndian (b :: bs) = b.toNat * 256 ^ bs.length + bigEndian bs := by
  rw [bigEndian, List.foldl_cons, bigEndian_fold]
  simp

theorem bigEndian_one (b : UInt8) : bigEndian [b] = b.toNat := by
  simp [bigEndian]

theorem bigEndian_two (hi lo : UInt8) : bigEndian [hi, lo] = 256 * hi.toNat + lo.toNat := by
  simp [bigEndian]

/-! ## Packing -/

theorem pack_cons (d : Nat) {ds : List Nat} (h : ds.length % 2 = 0) :
    pack (d :: ds) = UInt8.ofNat d :: pack ds := by
  have hs := isSome_foldr_packDigit ds
  rcases hf : ds.foldr packDigit (none, []) with ⟨_ | lo, bytes⟩
  · simp [pack, hf, packDigit]
  · simp [hf] at hs
    omega

theorem pack_pairs : ∀ {ds : List Char}, ds.length % 2 = 0 → pack (ds.map value) = pairs ds
  | [], _ => rfl
  | [_], h => by simp at h
  | hi :: lo :: ds, h => by
    have heven : ds.length % 2 = 0 := by simp only [List.length_cons] at h; omega
    rw [List.map_cons, List.map_cons, pack_cons_cons _ _ (by simpa using heven), pack_pairs heven]
    rfl

theorem pack_eq_bytesOf (ds : List Char) : pack (ds.map value) = bytesOf ds := by
  unfold bytesOf
  split
  · rename_i h
    cases ds with
    | nil => simp at h
    | cons d ds =>
      have heven : ds.length % 2 = 0 := by simp only [List.length_cons] at h; omega
      rw [List.map_cons, pack_cons _ (by simpa using heven), pack_pairs heven, pairs,
        show value '0' = 0 from rfl, Nat.mul_zero, Nat.zero_add]
  · exact pack_pairs (by omega)

theorem length_pairs : ∀ ds : List Char, (pairs ds).length = ds.length / 2
  | [] => rfl
  | [_] => by simp [pairs]
  | _ :: _ :: ds => by
    rw [pairs, List.length_cons, length_pairs ds]
    simp only [List.length_cons]
    omega

theorem length_bytesOf (ds : List Char) : (bytesOf ds).length = (ds.length + 1) / 2 := by
  rw [bytesOf, length_pairs]
  split
  · simp
  · omega

theorem bigEndian_pairs : ∀ {ds : List Char}, ds.length % 2 = 0 → bigEndian (pairs ds) = number ds
  | [], _ => rfl
  | [_], h => by simp at h
  | hi :: lo :: ds, h => by
    have heven : ds.length % 2 = 0 := by simp only [List.length_cons] at h; omega
    have hhi := value_lt hi
    have hlo := value_lt lo
    have hbyte : (UInt8.ofNat (16 * value hi + value lo)).toNat = 16 * value hi + value lo := by
      rw [UInt8.toNat_ofNat']
      omega
    have hpow : 16 ^ ds.length = 256 ^ (ds.length / 2) := by
      rw [show (256 : Nat) = 16 ^ 2 from rfl, ← pow_mul, Nat.mul_div_cancel' (by omega)]
    rw [pairs, bigEndian_cons, number_cons, number_cons, length_pairs, bigEndian_pairs heven, hbyte,
      ← hpow, List.length_cons]
    ring

theorem bigEndian_bytesOf (ds : List Char) : bigEndian (bytesOf ds) = number ds := by
  unfold bytesOf
  split
  · rename_i h
    rw [bigEndian_pairs (by simp only [List.length_cons]; omega), number_cons,
      show value '0' = 0 from rfl]
    simp
  · exact bigEndian_pairs (by omega)

/-- A zero in front of an odd row of digits is the one the row would get. -/
theorem bytesOf_cons_zero {ds : List Char} (h : ds.length % 2 = 1) :
    bytesOf ('0' :: ds) = bytesOf ds := by
  have heven : ¬('0' :: ds).length % 2 = 1 := by
    simp only [List.length_cons]
    omega
  rw [bytesOf, bytesOf, if_neg heven, if_pos h]

/-! ## Printed digits -/

theorem digit?_toLower (c : Char) : digit? c.toLower = digit? c := by
  by_cases h : c.isUpper = true
  · have hc : 'A'.val ≤ c.val ∧ c.val ≤ 'Z'.val := of_decide_eq_true h
    obtain ⟨hlo, hhi⟩ : 65 ≤ c.toNat ∧ c.toNat ≤ 90 := by
      simpa [UInt32.le_iff_toNat_le] using hc
    have hall : ∀ i : Fin 26,
        digit? (Char.ofNat (65 + i)).toLower = digit? (Char.ofNat (65 + i)) := by decide
    have := hall ⟨c.toNat - 65, by omega⟩
    rwa [show 65 + (c.toNat - 65) = c.toNat by omega, Char.ofNat_toNat] at this
  · have hc : ¬(c.val ≥ 'A'.val ∧ c.val ≤ 'Z'.val) := fun hup => h (decide_eq_true hup)
    have hlower : c.toLower = c := dif_neg hc
    rw [hlower]

theorem digit?_of_toLower {c : Char} {n : Nat} (hn : n < 16) (h : c.toLower = digitChar n) :
    digit? c = some n := by
  rw [← digit?_toLower, h, digit?_digitChar hn]

theorem length_ofBytes (bytes : List UInt8) : (ofBytes bytes).length = 2 * bytes.length := by
  induction bytes with
  | nil => rfl
  | cons b bytes ih =>
    simp only [ofBytes, List.flatMap_cons, List.length_append] at ih ⊢
    rw [ih]
    simp [ofByte]
    omega

theorem pairs_ofBytes {ds : List Char} {bytes : List UInt8}
    (h : ds.map Char.toLower = ofBytes bytes) :
    (∀ d ∈ ds, isDigit d = true) ∧ pairs ds = bytes := by
  induction bytes generalizing ds with
  | nil =>
    obtain rfl := List.map_eq_nil_iff.1 h
    exact ⟨by simp, rfl⟩
  | cons b bytes ih =>
    have hb := b.toNat_lt
    obtain ⟨hi, ds, rfl, hhi, h⟩ := List.map_eq_cons_iff.1 h
    obtain ⟨lo, ds, rfl, hlo, h⟩ := List.map_eq_cons_iff.1 h
    obtain ⟨hds, hpairs⟩ := ih h
    have hhi := digit?_of_toLower (by omega) hhi
    have hlo := digit?_of_toLower (by omega) hlo
    constructor
    · intro d hd
      rcases List.mem_cons.1 hd with rfl | hd
      · simp [isDigit, hhi]
      · rcases List.mem_cons.1 hd with rfl | hd
        · simp [isDigit, hlo]
        · exact hds d hd
    · simp only [pairs, value, hhi, hlo, Option.getD_some, hpairs]
      rw [Nat.div_add_mod, UInt8.ofNat_toNat]

theorem bytesOf_ofBytes {ds : List Char} {bytes : List UInt8}
    (h : ds.map Char.toLower = ofBytes bytes) : bytesOf ds = bytes := by
  have hl := (congrArg List.length h).trans (length_ofBytes bytes)
  rw [List.length_map] at hl
  rw [bytesOf, if_neg (by omega), (pairs_ofBytes h).2]

theorem number_ofBytes {ds : List Char} {bytes : List UInt8}
    (h : ds.map Char.toLower = ofBytes bytes) : number ds = bigEndian bytes := by
  rw [← bigEndian_bytesOf, bytesOf_ofBytes h]

end Console16.Text.Hex
