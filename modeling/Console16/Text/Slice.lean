import Console16.Text.Width

/-!
# Console16.Text.Slice

Texts that know how many bytes they take, as pieces of a longer text do: where a piece at the end of
a text starts is told by the bytes it has, without a look at what is before it.

* `Slice.tail`: the text after its first character.
* `takeBytes`: the first bytes of a text.
-/

namespace Console16.Text

/-- A text with the UTF-8 bytes it takes. -/
structure Slice where
  chars : List Char
  bytes : Nat
  bytes_eq : bytes = width chars

namespace Slice

def ofList (cs : List Char) : Slice := ⟨cs, width cs, rfl⟩

/-- The text after its first character. -/
def tail : Slice → Slice
  | ⟨[], n, h⟩ => ⟨[], n, h⟩
  | ⟨c :: cs, n, h⟩ => ⟨cs, n - c.utf8Size, by rw [h, width_cons, Nat.add_sub_cancel_left]⟩

@[simp] theorem chars_tail (s : Slice) : s.tail.chars = s.chars.tail := by
  obtain ⟨_ | ⟨c, cs⟩, n, h⟩ := s
  · rfl
  · rfl

end Slice

/-- The characters in the first bytes of a text, behind those that are taken already, last first. -/
def takeBytesOnto (taken : List Char) : Nat → List Char → List Char
  | n, c :: cs =>
    if c.utf8Size ≤ n then takeBytesOnto (c :: taken) (n - c.utf8Size) cs else taken.reverse
  | _, [] => taken.reverse

/-- The characters in the first bytes of a text. -/
def takeBytes (n : Nat) (cs : List Char) : List Char :=
  takeBytesOnto [] n cs

theorem takeBytesOnto_append (taken cs ds : List Char) :
    takeBytesOnto taken (width cs) (cs ++ ds) = taken.reverse ++ cs := by
  induction cs generalizing taken with
  | nil =>
    cases ds with
    | nil => exact (List.append_nil _).symm
    | cons d ds =>
      have hpos := d.utf8Size_pos
      rw [width_nil, List.nil_append, takeBytesOnto, if_neg (by omega), List.append_nil]
  | cons c cs ih =>
    rw [width_cons, List.cons_append, takeBytesOnto, if_pos (Nat.le_add_right _ _),
      Nat.add_sub_cancel_left, ih, List.reverse_cons, List.append_assoc, List.singleton_append]

theorem takeBytes_width (cs ds : List Char) : takeBytes (width cs) (cs ++ ds) = cs :=
  takeBytesOnto_append [] cs ds

end Console16.Text
