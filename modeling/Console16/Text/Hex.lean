/-!
# Console16.Text.Hex

Hexadecimal text. A literal is `0x` and one or more digits of either case; its digits are packed
into bytes from the right, so that an odd count leaves the first digit in a byte of its own.

* `Hex.pack_cons_cons`: two digits in front of an even count make one byte.
* `Hex.digit?_digitChar`: a printed digit reads back.
-/

namespace Console16.Text.Hex

/-- The value of a digit of either case. -/
def digit? (c : Char) : Option Nat :=
  if '0' ≤ c ∧ c ≤ '9' then some (c.toNat - 48)
  else if 'a' ≤ c ∧ c ≤ 'f' then some (c.toNat - 87)
  else if 'A' ≤ c ∧ c ≤ 'F' then some (c.toNat - 55)
  else none

def isDigit (c : Char) : Bool :=
  (digit? c).isSome

/-- The value of a digit, and 0 for any other character. -/
def value (c : Char) : Nat :=
  (digit? c).getD 0

/-- Takes one more digit on the left: it waits for a partner or completes a byte. -/
def packDigit (d : Nat) : Option Nat × List UInt8 → Option Nat × List UInt8
  | (none, bytes) => (some d, bytes)
  | (some lo, bytes) => (none, UInt8.ofNat (16 * d + lo) :: bytes)

/-- Digit values packed two to a byte from the right. -/
def pack (digits : List Nat) : List UInt8 :=
  match digits.foldr packDigit (none, []) with
  | (none, bytes) => bytes
  | (some d, bytes) => UInt8.ofNat d :: bytes

/-- The bytes of a `0x` literal, if the word is one. -/
def literal? : List Char → Option (List UInt8)
  | '0' :: 'x' :: d :: ds =>
    if (d :: ds).all isDigit then some (pack ((d :: ds).map value)) else none
  | _ => none

/-- The lower-case digit of a value below 16. -/
def digitChar (n : Nat) : Char :=
  if n < 10 then Char.ofNat (48 + n) else Char.ofNat (87 + n)

/-- The two digits of a byte. -/
def ofByte (b : UInt8) : List Char :=
  [digitChar (b.toNat / 16), digitChar (b.toNat % 16)]

def ofBytes (bytes : List UInt8) : List Char :=
  bytes.flatMap ofByte

/-- The four digits of a word. -/
def ofWord (v : UInt16) : List Char :=
  [digitChar (v.toNat / 4096), digitChar (v.toNat / 256 % 16), digitChar (v.toNat / 16 % 16),
    digitChar (v.toNat % 16)]

theorem digit?_digitChar {n : Nat} (h : n < 16) : digit? (digitChar n) = some n := by
  have : ∀ n : Fin 16, digit? (digitChar n.val) = some n.val := by decide
  exact this ⟨n, h⟩

/-- A fold over digits ends with a digit waiting exactly when their count is odd. -/
theorem isSome_foldr_packDigit (ds : List Nat) :
    (ds.foldr packDigit (none, [])).1.isSome = decide (ds.length % 2 = 1) := by
  induction ds with
  | nil => rfl
  | cons d ds ih =>
    rw [List.foldr_cons]
    rcases hf : ds.foldr packDigit (none, []) with ⟨_ | lo, bytes⟩
    · simp only [hf, Option.isSome_none] at ih
      have := of_decide_eq_false ih.symm
      simp only [packDigit, List.length_cons, Option.isSome_some]
      symm
      exact decide_eq_true (by omega)
    · simp only [hf, Option.isSome_some] at ih
      have := of_decide_eq_true ih.symm
      simp only [packDigit, List.length_cons, Option.isSome_none]
      symm
      exact decide_eq_false (by omega)

theorem pack_cons_cons (hi lo : Nat) {ds : List Nat} (h : ds.length % 2 = 0) :
    pack (hi :: lo :: ds) = UInt8.ofNat (16 * hi + lo) :: pack ds := by
  have hs := isSome_foldr_packDigit ds
  rcases hf : ds.foldr packDigit (none, []) with ⟨_ | d, bytes⟩
  · simp [pack, hf, packDigit]
  · simp [hf] at hs
    omega

end Console16.Text.Hex
