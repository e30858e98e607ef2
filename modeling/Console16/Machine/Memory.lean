import Console16.Isa.Operands

/-!
# Console16.Machine.Memory

The 64 KiB of main memory. Words are big-endian and addresses wrap, so the word at `0xFFFF` has its
low byte at `0`.

* `Memory.read_write`: a byte reads as last written.
* `Memory.readWord_writeWord`: and so does a word.
* `Memory.read_load`: an image is loaded from address 0 over zeros.
-/

namespace Console16

def memorySize : Nat := 65536

structure Memory where
  bytes : Vector UInt8 memorySize

/-- An image of more bytes than the memory has. -/
structure LoadError where
  imageLen : Nat
  deriving DecidableEq, Repr

namespace LoadError

def message (e : LoadError) : String :=
  "Binary image is " ++ toString e.imageLen ++ " bytes, which does not fit in "
    ++ toString memorySize ++ " bytes of memory."

def code (_ : LoadError) : String :=
  "run::image_too_large"

end LoadError

namespace Memory

/-- The place of an address: every address has one. -/
def index (a : UInt16) : Fin memorySize :=
  ⟨a.toNat, a.toNat_lt⟩

def read (m : Memory) (a : UInt16) : UInt8 :=
  m.bytes[index a]

def write (m : Memory) (a : UInt16) (b : UInt8) : Memory :=
  ⟨m.bytes.set (index a) b⟩

/-- The word whose high byte is at an address. -/
def readWord (m : Memory) (a : UInt16) : UInt16 :=
  wordOf (m.read a) (m.read (a + 1))

/-- Writes a word, high byte first. -/
def writeWord (m : Memory) (a v : UInt16) : Memory :=
  (m.write a (hiByte v)).write (a + 1) (loByte v)

/-- The four bytes from an address on. -/
def fetch (m : Memory) (a : UInt16) : CodeWord :=
  ⟨m.read a, m.read (a + 1), m.read (a + 2), m.read (a + 3)⟩

/-- Memory with an image at address 0 and zeros after it, if it fits. -/
def load (image : List UInt8) : Except LoadError Memory :=
  if h : image.length ≤ memorySize then
    .ok ⟨⟨(image ++ List.replicate (memorySize - image.length) 0).toArray, by simp; omega⟩⟩
  else .error ⟨image.length⟩

theorem read_write (m : Memory) (a x : UInt16) (b : UInt8) :
    (m.write a b).read x = if x = a then b else m.read x := by
  simp only [read, write, index, Fin.getElem_fin, Vector.getElem_set, UInt16.toNat_inj,
    eq_comm (a := x)]

theorem read_writeWord (m : Memory) (a v x : UInt16) :
    (m.writeWord a v).read x =
      if x = a + 1 then loByte v else if x = a then hiByte v else m.read x := by
  rw [writeWord, read_write, read_write]

/-- A word reads as last written, also across the end of memory. -/
theorem readWord_writeWord (m : Memory) (a v : UInt16) : (m.writeWord a v).readWord a = v := by
  have hne : a ≠ a + 1 := by
    intro h
    have := congrArg UInt16.toNat h
    rw [UInt16.toNat_add, UInt16.toNat_one] at this
    omega
  rw [readWord, read_writeWord, read_writeWord, if_neg hne, if_pos rfl, if_pos rfl, wordOf_bytes]

theorem read_load {image : List UInt8} {m : Memory} (h : load image = .ok m) (x : UInt16) :
    m.read x = image.getD x.toNat 0 := by
  unfold load at h
  split at h
  · cases h
    simp only [read, index, Fin.getElem_fin, Vector.getElem_mk, List.getElem_toArray,
      List.getD_eq_getElem?_getD]
    by_cases hx : x.toNat < image.length
    · simp [hx, List.getElem_append_left]
    · rw [List.getElem_append_right (by omega)]
      simp [List.getElem?_eq_none (Nat.le_of_not_lt hx)]
  · cases h

end Memory
end Console16
