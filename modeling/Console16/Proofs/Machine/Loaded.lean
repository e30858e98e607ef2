import Console16.Machine.Basic
import Mathlib.Data.List.GetD

/-!
# Console16.Proofs.Machine.Loaded

Memory that holds an image at address 0, what is fetched from it, and the machine that is booted with
it. How much of memory still holds the image is a parameter: all of it after loading, less once a
program has written.

* `Memory.exists_load`: an image that fits is loaded, and all of memory holds it.
* `Memory.Holds.fetch`: what is fetched is the four bytes of the image.
* `Machine.boot_eq_ok_iff`: the machine that is booted from an image.
-/

namespace Console16

/-- Four bytes of a row from an index on, with zeros after the row. -/
def codeWordAt (bytes : List UInt8) (i : Nat) : CodeWord :=
  ⟨bytes.getD i 0, bytes.getD (i + 1) 0, bytes.getD (i + 2) 0, bytes.getD (i + 3) 0⟩

@[simp] theorem codeWordAt_toList (w : CodeWord) : codeWordAt w.toList 0 = w := rfl

theorem getD_append_middle (pre bytes post : List UInt8) {i : Nat} (h : i < bytes.length) :
    (pre ++ bytes ++ post).getD (pre.length + i) 0 = bytes.getD i 0 := by
  have hi : pre.length + i < (pre ++ bytes).length := by
    rw [List.length_append]
    omega
  rw [List.getD_append _ _ _ _ hi, List.getD_append_right _ _ _ _ (by omega),
    Nat.add_sub_cancel_left]

theorem codeWordAt_append_middle (pre bytes post : List UInt8) {i : Nat}
    (h : i + codeWordSize ≤ bytes.length) :
    codeWordAt (pre ++ bytes ++ post) (pre.length + i) = codeWordAt bytes i := by
  simp only [codeWordSize] at h
  simp only [codeWordAt, Nat.add_assoc]
  rw [getD_append_middle pre bytes post (by omega : i < bytes.length),
    getD_append_middle pre bytes post (by omega : i + 1 < bytes.length),
    getD_append_middle pre bytes post (by omega : i + 2 < bytes.length),
    getD_append_middle pre bytes post (by omega : i + 3 < bytes.length)]

theorem codeWordAt_of_le {bytes : List UInt8} {i : Nat} (h : bytes.length ≤ i) :
    codeWordAt bytes i = ⟨0, 0, 0, 0⟩ := by
  have hz : ∀ j, i ≤ j → bytes.getD j 0 = 0 := fun j hj =>
    List.getD_eq_default _ _ (by omega)
  simp only [codeWordAt, hz i (by omega), hz (i + 1) (by omega), hz (i + 2) (by omega),
    hz (i + 3) (by omega)]

namespace Memory

/-- Memory below a limit is an image followed by zeros. -/
def Holds (m : Memory) (limit : Nat) (image : List UInt8) : Prop :=
  ∀ a : UInt16, a.toNat < limit → m.read a = image.getD a.toNat 0

theorem holds_load {image : List UInt8} {m : Memory} (h : load image = .ok m) :
    m.Holds memorySize image :=
  fun a _ => read_load h a

theorem exists_load {image : List UInt8} (h : image.length ≤ memorySize) :
    ∃ m, load image = .ok m ∧ m.Holds memorySize image := by
  have hl : ∃ m, load image = .ok m := by
    unfold load
    rw [dif_pos h]
    exact ⟨_, rfl⟩
  obtain ⟨m, hm⟩ := hl
  exact ⟨m, hm, holds_load hm⟩

variable {m : Memory} {limit : Nat} {image : List UInt8}

theorem Holds.mono {limit' : Nat} (h : m.Holds limit image) (hle : limit' ≤ limit) :
    m.Holds limit' image :=
  fun a ha => h a (Nat.lt_of_lt_of_le ha hle)

theorem toNat_ofNat_of_lt {i : Nat} (h : i < memorySize) : (UInt16.ofNat i).toNat = i := by
  rw [UInt16.toNat_ofNat']
  exact Nat.mod_eq_of_lt h

theorem Holds.read_ofNat (h : m.Holds limit image) (hlimit : limit ≤ memorySize) {i : Nat}
    (hi : i < limit) : m.read (UInt16.ofNat i) = image.getD i 0 := by
  have hn := toNat_ofNat_of_lt (Nat.lt_of_lt_of_le hi hlimit)
  rw [h _ (by rwa [hn]), hn]

theorem Holds.fetch (h : m.Holds limit image) (hlimit : limit ≤ memorySize) {i : Nat}
    (hi : i + codeWordSize ≤ limit) : m.fetch (UInt16.ofNat i) = codeWordAt image i := by
  simp only [codeWordSize] at hi
  have hadd : ∀ k : Nat, UInt16.ofNat i + UInt16.ofNat k = UInt16.ofNat (i + k) := fun k =>
    (UInt16.ofNat_add i k).symm
  have h1 : UInt16.ofNat i + 1 = UInt16.ofNat (i + 1) := hadd 1
  have h2 : UInt16.ofNat i + 2 = UInt16.ofNat (i + 2) := hadd 2
  have h3 : UInt16.ofNat i + 3 = UInt16.ofNat (i + 3) := hadd 3
  simp only [Memory.fetch, codeWordAt, h1, h2, h3]
  rw [h.read_ofNat hlimit (by omega), h.read_ofNat hlimit (by omega),
    h.read_ofNat hlimit (by omega), h.read_ofNat hlimit (by omega)]

end Memory

theorem Machine.boot_eq_ok_iff {S K C : Type} [Clock C] {image : List UInt8} {screen : S}
    {keypad : K} {clock : C} {random : Stream} {config : RunConfig} {m : Machine S K C} :
    boot image screen keypad clock random config = .ok m ↔
      ∃ memory, Memory.load image = .ok memory ∧
        m = ⟨.start memory (Clock.read clock).1, screen, keypad, (Clock.read clock).2, random,
          config, false⟩ := by
  unfold boot
  cases hload : Memory.load image with
  | error e =>
    constructor
    · intro h
      cases h
    · rintro ⟨memory, h, -⟩
      cases h
  | ok memory =>
    constructor
    · intro h
      cases h
      exact ⟨memory, rfl, rfl⟩
    · rintro ⟨_, h, rfl⟩
      cases h
      rfl

theorem boot_of_load {S K C : Type} [Clock C] {image : List UInt8} {memory : Memory}
    (h : Memory.load image = .ok memory) (screen : S) (keypad : K) (clock : C) (random : Stream)
    (config : RunConfig) :
    ∃ m, Machine.boot image screen keypad clock random config = .ok m ∧ m.cpu.memory = memory ∧
      m.cpu.ip = 0 :=
  ⟨_, Machine.boot_eq_ok_iff.2 ⟨memory, h, rfl⟩, rfl, rfl⟩

end Console16
