/-!
# Console16.Text.Numeral

Unsigned decimal numerals: an optional single `+`, then one or more ASCII digits, with a value
below a limit. Leading zeros are allowed; blanks are not.
-/

namespace Console16.Text.Numeral

/-- The number a row of digits stands for, continuing from `acc`. -/
def valueFrom (acc : Nat) (digits : List Char) : Nat :=
  digits.foldl (fun n c => 10 * n + (c.toNat - 48)) acc

/-- The digits of a numeral: what follows an optional `+`. -/
def digits : List Char → List Char
  | '+' :: ds => ds
  | ds => ds

/-- The value of a numeral below `limit`. -/
def parse? (limit : Nat) (cs : List Char) : Option Nat :=
  let ds := digits cs
  if ds ≠ [] ∧ ds.all Char.isDigit then
    let n := valueFrom 0 ds
    if n < limit then some n else none
  else none

end Console16.Text.Numeral
