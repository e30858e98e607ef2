/-!
# Console16.Device.Screen

Colors, and what a screen must be able to do. A screen takes every plotted pixel, also one outside
the display; what it keeps of it is its own business.

* `PixelLog`: the screen that keeps everything.
* A pair of screens is a screen: both see the same pixels.
-/

namespace Console16

/-- A color packed as three bits of red, three of green and two of blue. -/
structure Color where
  raw : UInt8
  deriving DecidableEq, Repr

namespace Color

def black : Color := ⟨0⟩

/-- Eight bits a channel: red, green, blue. -/
def rgb (c : Color) : List UInt8 :=
  [c.raw &&& 0xE0, (c.raw &&& 0x1C) <<< 3, (c.raw &&& 0x03) <<< 6]

end Color

/-- Takes the pixels that `PIXEL` plots. -/
class Screen (S : Type) where
  plot : S → UInt16 → UInt16 → Color → S

structure PixelEvent where
  x : UInt16
  y : UInt16
  color : Color
  deriving DecidableEq, Repr

/-- The pixels plotted so far, on the display or off it. -/
structure PixelLog where
  events : Array PixelEvent

namespace PixelLog

def empty : PixelLog := ⟨#[]⟩

instance : Screen PixelLog where
  plot log x y color := ⟨log.events.push ⟨x, y, color⟩⟩

end PixelLog

instance {S T : Type} [Screen S] [Screen T] : Screen (S × T) where
  plot pair x y color := (Screen.plot pair.1 x y color, Screen.plot pair.2 x y color)

end Console16
