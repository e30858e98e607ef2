/-!
# Console16.Device.Clock

Millisecond clocks. A read may move the clock, so it gives back the clock as well.
-/

namespace Console16

/-- A source of millisecond readings. -/
class Clock (C : Type) where
  read : C → UInt64 × C

/-- A clock that stands still except that every read moves it on by `tick`. -/
structure ManualClock where
  now : UInt64
  tick : UInt64
  deriving DecidableEq, Repr

namespace ManualClock

/-- The reading, and the clock one tick later. -/
def read (c : ManualClock) : UInt64 × ManualClock :=
  (c.now, { c with now := c.now + c.tick })

instance : Clock ManualClock := ⟨read⟩

def advance (c : ManualClock) (millis : UInt64) : ManualClock :=
  { c with now := c.now + millis }

def set (c : ManualClock) (millis : UInt64) : ManualClock :=
  { c with now := millis }

end ManualClock
end Console16
