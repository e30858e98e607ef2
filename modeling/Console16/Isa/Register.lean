/-!
# Console16.Isa.Register

The sixteen general purpose registers and the names a source line may use for them. Register 0 is
the stack pointer by convention: `PUSH`, `POP`, `CALL` and `RET` move it.

* `Register.aliases`: every register has a letter name and an `R` name, thirty-two words in all.
* `Register.ofName?_name`: a printed register reads back as itself.
-/

namespace Console16

/-- A register is its index. -/
abbrev Register := Fin 16

namespace Register

theorem val_lt (r : Register) : r.val < 16 := r.isLt

def sp : Register := 0

def all : List Register := [0, 1, 2, 3, 4, 5, 6, 7, 8, 9, 10, 11, 12, 13, 14, 15]

/-- The printed name, `R0` to `R15`. -/
def name (r : Register) : String :=
  "R" ++ toString r.val

/-- The letter names, by index. -/
def letters : Vector String 16 :=
  #v["SP", "FP", "A", "B", "C", "D", "E", "F", "G", "H", "I", "J", "K", "L", "M", "N"]

def letter (r : Register) : String :=
  letters[r]

/-- The words that name a register, each with its register. Case matters. -/
def aliases : List (String × Register) :=
  all.flatMap fun r => [(r.letter, r), (r.name, r)]

def ofName? (word : String) : Option Register :=
  aliases.lookup word

/-- The register selected by the low four bits of an operand byte. -/
def ofNibble (b : UInt8) : Register :=
  ⟨b.toNat % 16, Nat.mod_lt _ (by decide)⟩

/-- The operand byte that selects a register. -/
def toByte (r : Register) : UInt8 :=
  UInt8.ofNat r.val

theorem mem_all (r : Register) : r ∈ all := by
  revert r; decide

theorem ofName?_name (r : Register) : ofName? r.name = some r := by
  revert r; decide

theorem ofName?_letter (r : Register) : ofName? r.letter = some r := by
  revert r; decide

theorem ofNibble_toByte (r : Register) : ofNibble r.toByte = r := by
  revert r; decide

end Register
end Console16
