/-!
# Console16.Device.Keys

Inputs that are held down, by id, and the table from key codes to ids. Of two bindings of one key
the first counts.

* `KeyState.isActive_set`: setting one id leaves the others alone.
-/

namespace Console16

/-- Answers whether an input is held down. -/
class Keypad (K : Type) where
  isActive : K → UInt16 → Bool

/-- Bindings of key codes to input ids, in the order they were made. -/
structure Keymap where
  bindings : List (UInt32 × UInt16)

namespace Keymap

def empty : Keymap := ⟨[]⟩

/-- Adds a binding behind the others. -/
def bind (m : Keymap) (keyCode : UInt32) (id : UInt16) : Keymap :=
  ⟨m.bindings ++ [(keyCode, id)]⟩

/-- The input a key is bound to. -/
def lookup (m : Keymap) (keyCode : UInt32) : Option UInt16 :=
  m.bindings.lookup keyCode

end Keymap

/-- The inputs held down. -/
structure KeyState where
  keymap : Keymap
  active : List UInt16

namespace KeyState

def released (keymap : Keymap) : KeyState := ⟨keymap, []⟩

def isActive (k : KeyState) (id : UInt16) : Bool :=
  k.active.contains id

instance : Keypad KeyState := ⟨isActive⟩

/-- Presses or releases an input. -/
def set (k : KeyState) (id : UInt16) (pressed : Bool) : KeyState :=
  let others := k.active.filter (· != id)
  { k with active := if pressed then id :: others else others }

/-- Presses or releases the input a key is bound to; an unbound key does nothing. -/
def keyEvent (k : KeyState) (keyCode : UInt32) (pressed : Bool) : KeyState :=
  match k.keymap.lookup keyCode with
  | some id => k.set id pressed
  | none => k

theorem isActive_set (k : KeyState) (id i : UInt16) (pressed : Bool) :
    (k.set id pressed).isActive i = if i = id then pressed else k.isActive i := by
  by_cases h : i = id
  · subst h
    cases pressed <;> simp [set, isActive]
  · cases pressed <;> simp [set, isActive, h]

end KeyState
end Console16
