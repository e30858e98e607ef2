import Console16.Proofs.Asm.Reading
import Mathlib.Data.Nat.Digits.Lemmas

/-!
# Console16.Proofs.Asm.Literal

Literals and the numbers they are written for. A literal of any length gives as few bytes as its
digits fill, and these bytes, highest first, are the number of the digits; so bytes that are printed
with two digits each read back, and a zero in front counts only if it takes a byte of its own. As a
16-bit operand a literal of at most four digits is its number.

* `Hex.number_eq_written`: the digits read one by one, and by their places.
* `Hex.bytesOf_cons_zero_iff`: a zero in front of a row of digits.
* `literal_is_its_number`: every word.
-/

namespace Console16

namespace Text.Hex

variable {ds : List Char}

/-- The place of a digit, of either case, among the sixteen. -/
def digitValue (d : Char) : Nat :=
  "0123456789abcdef".toList.idxOf d.toLower

/-- The number that hexadecimal digits are written for, the last digit counting ones. -/
def written (ds : List Char) : Nat :=
  Nat.ofDigits 16 (ds.reverse.map digitValue)

/-- The number that bytes stand for, the last byte counting ones. -/
def bytesNumber (bytes : List UInt8) : Nat :=
  Nat.ofDigits 256 (bytes.reverse.map UInt8.toNat)

/-! ## Numbers -/

theorem toNat_lt_of_isHexDigit {d : Char} (h : d.isHexDigit = true) : d.toNat < 128 := by
  have hdigit := isDigit_iff.2 h
  unfold isDigit digit? at hdigit
  split at hdigit
  · rename_i hd
    have : d.toNat ≤ 57 := hd.2
    omega
  · split at hdigit
    · rename_i hd
      have : d.toNat ≤ 102 := hd.2
      omega
    · split at hdigit
      · rename_i hd
        have : d.toNat ≤ 70 := hd.2
        omega
      · cases hdigit

theorem value_eq_digitValue {d : Char} (h : d.isHexDigit = true) : value d = digitValue d := by
  have hall : ∀ n : Fin 128, (Char.ofNat n).isHexDigit = true →
      value (Char.ofNat n) = digitValue (Char.ofNat n) := by decide
  have := hall ⟨d.toNat, toNat_lt_of_isHexDigit h⟩
  rw [Char.ofNat_toNat] at this
  exact this h

theorem number_concat (ds : List Char) (d : Char) :
    number (ds ++ [d]) = 16 * number ds + value d := by
  rw [number, List.foldl_append]
  rfl

theorem number_eq_ofDigits (ds : List Char) :
    number ds = Nat.ofDigits 16 (ds.reverse.map value) := by
  induction ds using List.reverseRecOn with
  | nil => rfl
  | append_singleton ds d ih =>
    rw [number_concat, ih, List.reverse_append, List.reverse_singleton, List.singleton_append,
      List.map_cons, Nat.ofDigits_cons, Nat.add_comm]

theorem number_eq_written (h : ∀ d ∈ ds, d.isHexDigit = true) : number ds = written ds := by
  have hvalue : ds.reverse.map value = ds.reverse.map digitValue :=
    List.map_congr_left fun d hd => value_eq_digitValue (h d (List.mem_reverse.1 hd))
  rw [number_eq_ofDigits, hvalue, written]

theorem number_lt (ds : List Char) : number ds < 16 ^ ds.length := by
  have hlt : ∀ n ∈ ds.reverse.map value, n < 16 := by
    intro n hn
    obtain ⟨d, -, rfl⟩ := List.mem_map.1 hn
    exact value_lt d
  have h := Nat.ofDigits_lt_base_pow_length (by decide) hlt
  rwa [← number_eq_ofDigits, List.length_map, List.length_reverse] at h

theorem bigEndian_eq_bytesNumber (bytes : List UInt8) : bigEndian bytes = bytesNumber bytes := by
  induction bytes using List.reverseRecOn with
  | nil => rfl
  | append_singleton bytes b ih =>
    have hconcat : bigEndian (bytes ++ [b]) = 256 * bigEndian bytes + b.toNat := by
      rw [bigEndian, List.foldl_append]
      rfl
    rw [hconcat, ih, bytesNumber, bytesNumber, List.reverse_append, List.reverse_singleton,
      List.singleton_append, List.map_cons, Nat.ofDigits_cons, Nat.add_comm]

/-! ## Zeros in front -/

theorem bytesOf_cons_zero_iff : bytesOf ('0' :: ds) = bytesOf ds ↔ ds.length % 2 = 1 := by
  constructor
  · intro h
    have hlen := congrArg List.length h
    rw [length_bytesOf, length_bytesOf, List.length_cons] at hlen
    omega
  · exact bytesOf_cons_zero

end Text.Hex

open Text

/-! ## Words -/

namespace IsLiteral

variable {w ds : List Char}

theorem literal?_eq (h : IsLiteral w ds) : Hex.literal? w = some (Hex.bytesOf ds) := by
  rw [← Hex.pack_eq_bytesOf]
  exact literal?_eq_some_iff.2 ⟨ds, h, rfl⟩

theorem cons_zero (h : IsLiteral w ds) : IsLiteral ('0' :: 'x' :: '0' :: ds) ('0' :: ds) := by
  refine ⟨rfl, List.cons_ne_nil _ _, fun d hd => ?_⟩
  rcases List.mem_cons.1 hd with rfl | hd
  · decide
  · exact h.2.2 d hd

theorem of_ofBytes {bytes : List UInt8} (hne : bytes ≠ [])
    (h : ds.map Char.toLower = Hex.ofBytes bytes) : IsLiteral ('0' :: 'x' :: ds) ds := by
  refine ⟨rfl, ?_, fun d hd => isDigit_iff.1 ((Hex.pairs_ofBytes h).1 d hd)⟩
  rintro rfl
  have hlen := congrArg List.length h
  have hpos := List.length_pos_iff.2 hne
  rw [Hex.length_ofBytes, List.map_nil, List.length_nil] at hlen
  omega

/-- As a 16-bit operand a short literal is its number. -/
theorem target?_eq (h : IsLiteral w ds) (hlen : ds.length ≤ 4) (offset line : Nat) :
    (Token.ofWord ⟨offset, w⟩).target? line =
      some (.ok (.value (UInt16.ofNat (Hex.number ds)))) := by
  have hchars : (Token.ofWord ⟨offset, w⟩).chars = w := by simp [Token.chars, Token.ofWord]
  have hspells : Spells (Token.ofWord ⟨offset, w⟩).chars
      (.number (UInt16.ofNat (Hex.number ds))) := by
    rw [hchars]
    exact .number h hlen
  obtain ⟨y, hy, hwritten⟩ := Token.target?_of_spells line (Token.honest_ofWord _) hspells
  cases y with
  | value v =>
    cases hwritten
    exact hy
  | label ref => cases hwritten

end IsLiteral

/-- A word is read as a literal exactly if it is `0x` with hexadecimal digits of either case, and
then it gives half as many bytes as it has digits, rounded up, and they are the number of the digits.
Bytes printed with two digits each read back; a zero in front is without effect exactly if it makes
the count of the digits even; and a 16-bit operand of at most four digits is the number it is written
for. -/
theorem literal_is_its_number (word : List Char) :
    ((Hex.literal? word).isSome ↔ ∃ ds, IsLiteral word ds) ∧
    (∀ ds bytes, IsLiteral word ds → Hex.literal? word = some bytes →
      bytes.length = (ds.length + 1) / 2 ∧ Hex.bytesNumber bytes = Hex.written ds) ∧
    (∀ ds bytes, word = '0' :: 'x' :: ds → bytes ≠ [] → ds.map Char.toLower = Hex.ofBytes bytes →
      Hex.literal? word = some bytes) ∧
    (∀ ds, IsLiteral word ds →
      (Hex.literal? ('0' :: 'x' :: '0' :: ds) = Hex.literal? word ↔ ('0' :: ds).length % 2 = 0)) ∧
    ∀ ds offset line, IsLiteral word ds → ds.length ≤ 4 →
      ∃ v, (Token.ofWord ⟨offset, word⟩).target? line = some (.ok (.value v)) ∧
        v.toNat = Hex.written ds := by
  refine ⟨⟨?_, ?_⟩, ?_, ?_, ?_, ?_⟩
  · intro hsome
    obtain ⟨bytes, hbytes⟩ := Option.isSome_iff_exists.1 hsome
    obtain ⟨ds, hds, -⟩ := literal?_eq_some_iff.1 hbytes
    exact ⟨ds, hds⟩
  · rintro ⟨ds, hds⟩
    rw [hds.literal?_eq]
    rfl
  · intro ds bytes hds hbytes
    rw [hds.literal?_eq, Option.some.injEq] at hbytes
    obtain ⟨hlen, hnumber⟩ := number_of_bytesOf hbytes.symm
    rw [Hex.bigEndian_eq_bytesNumber, Hex.number_eq_written hds.2.2] at hnumber
    exact ⟨hlen, hnumber⟩
  · rintro ds bytes rfl hne hprinted
    rw [(IsLiteral.of_ofBytes hne hprinted).literal?_eq, Hex.bytesOf_ofBytes hprinted]
  · intro ds hds
    rw [hds.cons_zero.literal?_eq, hds.literal?_eq, Option.some.injEq, Hex.bytesOf_cons_zero_iff,
      List.length_cons]
    omega
  · intro ds offset line hds hlen
    refine ⟨_, hds.target?_eq hlen offset line, ?_⟩
    have hlt : Hex.number ds < 65536 :=
      (Hex.number_lt ds).trans_le (Nat.pow_le_pow_right (by decide) hlen)
    rw [UInt16.toNat_ofNat', Nat.mod_eq_of_lt hlt, Hex.number_eq_written hds.2.2]

/-- Digits of both cases with a zero in front, and a single digit. -/
theorem literal_is_its_number_of_mixed_case :
    (Hex.literal? ['0', 'x', '0', 'a', 'B', 'c'] = some [0x0a, 0xbc] ∧
      Hex.bytesNumber [0x0a, 0xbc] = Hex.written ['0', 'a', 'B', 'c']) ∧
    (∃ v, (Token.ofWord ⟨7, ['0', 'x', '0', 'a', 'B', 'c']⟩).target? 1 = some (.ok (.value v)) ∧
      v.toNat = Hex.written ['0', 'a', 'B', 'c']) ∧
    Hex.literal? ['0', 'x', '0', '7'] = Hex.literal? ['0', 'x', '7'] ∧
    Hex.literal? ['0', 'x', '0', '0', 'a', 'B', 'c'] ≠
      Hex.literal? ['0', 'x', '0', 'a', 'B', 'c'] := by
  have hlong : IsLiteral ['0', 'x', '0', 'a', 'B', 'c'] ['0', 'a', 'B', 'c'] :=
    ⟨rfl, by decide, List.all_eq_true.1 (by decide)⟩
  have hshort : IsLiteral ['0', 'x', '7'] ['7'] :=
    ⟨rfl, by decide, List.all_eq_true.1 (by decide)⟩
  obtain ⟨-, hnumber, hprinted, hzero, htarget⟩ :=
    literal_is_its_number ['0', 'x', '0', 'a', 'B', 'c']
  have hread : Hex.literal? ['0', 'x', '0', 'a', 'B', 'c'] = some [0x0a, 0xbc] :=
    hprinted ['0', 'a', 'B', 'c'] _ rfl (by decide) (by decide)
  refine ⟨⟨hread, (hnumber _ _ hlong hread).2⟩, ?_, ?_, ?_⟩
  · exact htarget _ 7 1 hlong (by decide)
  · exact ((literal_is_its_number ['0', 'x', '7']).2.2.2.1 _ hshort).2 rfl
  · exact fun h => absurd ((hzero _ hlong).1 h) (by decide)

end Console16
