import Console16.Device.Screen

/-!
# Console16.Device.Framebuffer

The display: 256 by 192 pixels, black at first. Pixels plotted outside it are counted and dropped.

* `Framebuffer.pixel?_plot`: a plotted pixel shows its color and every other one stays.
* `Framebuffer.ppm`: the picture as a binary portable pixmap.
-/

namespace Console16

def screenWidth : Nat := 256

def screenHeight : Nat := 192

structure Framebuffer where
  /-- Row after row from the top, each from the left. -/
  pixels : Vector Color (screenWidth * screenHeight)
  /-- Plotted pixels, those outside the display included. Stands for a counter of 64 bits, up to
  `2 ^ 64` plots. -/
  writes : Nat

namespace Framebuffer

def blank : Framebuffer := ⟨Vector.replicate _ .black, 0⟩

/-- The place of a position in row order. -/
def index (x y : Nat) (h : x < screenWidth ∧ y < screenHeight) :
    Fin (screenWidth * screenHeight) :=
  ⟨screenWidth * y + x, by simp only [screenWidth, screenHeight] at *; omega⟩

def pixel? (f : Framebuffer) (x y : Nat) : Option Color :=
  if h : x < screenWidth ∧ y < screenHeight then
    some f.pixels[index x y h]
  else none

def plot (f : Framebuffer) (x y : UInt16) (color : Color) : Framebuffer :=
  if h : x.toNat < screenWidth ∧ y.toNat < screenHeight then
    { pixels := f.pixels.set (index x.toNat y.toNat h) color
      writes := f.writes + 1 }
  else { f with writes := f.writes + 1 }

instance : Screen Framebuffer := ⟨plot⟩

/-- The lines in front of the picture data. -/
def ppmHeader : String :=
  "P6\n" ++ toString screenWidth ++ " " ++ toString screenHeight ++ "\n255\n"

/-- The bytes of one row of pixels. -/
def ppmRow (f : Framebuffer) (y : Nat) : List UInt8 :=
  (f.pixels.toArray.extract (screenWidth * y) (screenWidth * (y + 1))).toList.flatMap Color.rgb

/-- The picture as a binary portable pixmap: a header, then row after row. -/
def ppm (f : Framebuffer) : List UInt8 :=
  ppmHeader.toList.map Char.toUInt8 ++ (List.range screenHeight).flatMap f.ppmRow

theorem pixel?_blank {x y : Nat} (hx : x < screenWidth) (hy : y < screenHeight) :
    blank.pixel? x y = some .black := by
  simp [pixel?, blank, hx, hy]

theorem pixel?_plot (f : Framebuffer) (x y : UInt16) (color : Color) {i j : Nat}
    (hi : i < screenWidth) (hj : j < screenHeight) :
    (f.plot x y color).pixel? i j =
      if x.toNat = i ∧ y.toNat = j then some color else f.pixel? i j := by
  unfold plot
  split
  · rename_i h
    simp only [pixel?, hi, hj, and_self, dite_true, index, Fin.getElem_fin, Vector.getElem_set]
    have : screenWidth * y.toNat + x.toNat = screenWidth * j + i ↔ x.toNat = i ∧ y.toNat = j := by
      simp only [screenWidth] at *
      omega
    simp only [this]
    split <;> simp
  · rename_i h
    have : ¬(x.toNat = i ∧ y.toNat = j) := by
      rintro ⟨rfl, rfl⟩
      exact h ⟨hi, hj⟩
    simp [this, pixel?]

end Framebuffer
end Console16
