import Console16.Text.Numeral
import Mathlib.Data.List.Induction
import Mathlib.Data.Nat.Digits.Defs

/-!
# Console16.Proofs.Text.DecimalNumber

Decimal numerals and the numbers they stand for. Any row of digits is one, however long and with
any zeros in front, and so is such a row with one plus sign before it.

* `valueFrom_eq_number`: adding digit after digit gives the number of the row.
* `parse?_eq_some_iff`: exactly the numerals below the limit are read.
-/

namespace Console16.Text.Numeral

/-- The number a row of digits stands for, the last digit counting ones. -/
def number (ds : List Char) : Nat :=
  Nat.ofDigits 10 (ds.reverse.map fun d => d.toNat - '0'.toNat)

/-- A numeral and the number it is written for. -/
def Writes (cs : List Char) (n : Nat) : Prop :=
  ∃ ds, (cs = ds ∨ cs = '+' :: ds) ∧ ds ≠ [] ∧ (∀ d ∈ ds, d.isDigit = true) ∧ number ds = n

theorem number_concat (ds : List Char) (d : Char) :
    number (ds ++ [d]) = 10 * number ds + (d.toNat - '0'.toNat) := by
  rw [number, List.reverse_append, List.reverse_singleton, List.singleton_append, List.map_cons,
    Nat.ofDigits_cons, Nat.add_comm]
  rfl

theorem valueFrom_eq_number (ds : List Char) : valueFrom 0 ds = number ds := by
  induction ds using List.reverseRecOn with
  | nil => rfl
  | append_singleton ds d ih =>
    rw [number_concat, ← ih, valueFrom, List.foldl_append]
    rfl

theorem eq_or_eq_digits (cs : List Char) : cs = digits cs ∨ cs = '+' :: digits cs := by
  unfold digits
  split
  · exact .inr rfl
  · exact .inl rfl

/-- A row of digits has no sign to take away. -/
theorem digits_eq_self {ds : List Char} (h : ∀ d ∈ ds, d.isDigit = true) : digits ds = ds := by
  unfold digits
  split
  · exact absurd (h '+' List.mem_cons_self) (by decide)
  · rfl

theorem Writes.of_digits {cs : List Char} (hne : digits cs ≠ [])
    (hall : ∀ d ∈ digits cs, d.isDigit = true) : Writes cs (number (digits cs)) :=
  ⟨digits cs, eq_or_eq_digits cs, hne, hall, rfl⟩

theorem Writes.number_digits {cs : List Char} {n : Nat} (h : Writes cs n) :
    digits cs ≠ [] ∧ (∀ d ∈ digits cs, d.isDigit = true) ∧ number (digits cs) = n := by
  obtain ⟨ds, hcs, hne, hall, hn⟩ := h
  have hdigits : digits cs = ds := by
    rcases hcs with rfl | rfl
    · exact digits_eq_self hall
    · rfl
  rw [hdigits]
  exact ⟨hne, hall, hn⟩

theorem parse?_eq_some_iff {limit : Nat} {cs : List Char} {n : Nat} :
    parse? limit cs = some n ↔ Writes cs n ∧ n < limit := by
  simp only [parse?, List.all_eq_true, valueFrom_eq_number]
  constructor
  · intro h
    split at h
    · rename_i hds
      split at h
      · rename_i hlt
        cases h
        exact ⟨.of_digits hds.1 hds.2, hlt⟩
      · cases h
    · cases h
  · rintro ⟨hwrites, hlt⟩
    obtain ⟨hne, hall, rfl⟩ := hwrites.number_digits
    rw [if_pos ⟨hne, hall⟩, if_pos hlt]

end Console16.Text.Numeral
