/-!
# Console16.Placed

Items laid end to end. `placed size start xs` pairs every item of `xs` with the sum of the sizes
before it, counted from `start`: the byte offset of a line in a text, of a word in a line, of a
statement in an image.

* `placed_cons`: the running sum, item by item.
* `map_snd_placed`: no item is lost or moved.
-/

namespace Console16

/-- Pairs every item with the position at which it starts. -/
def placed {α : Type} (size : α → Nat) (start : Nat) (xs : List α) : List (Nat × α) :=
  (xs.foldl (fun acc x => (acc.1 + size x, (acc.1, x) :: acc.2)) (start, [])).2.reverse

section
variable {α : Type} (size : α → Nat)

theorem placed_fold (xs : List α) (start : Nat) (done : List (Nat × α)) :
    (xs.foldl (fun acc x => (acc.1 + size x, (acc.1, x) :: acc.2)) (start, done)).2.reverse =
      done.reverse ++ placed size start xs := by
  induction xs generalizing start done with
  | nil => simp [placed]
  | cons x xs ih =>
    simp only [placed, List.foldl_cons]
    rw [ih, ih]
    simp

@[simp] theorem placed_nil (start : Nat) : placed size start [] = [] := rfl

@[simp] theorem placed_cons (start : Nat) (x : α) (xs : List α) :
    placed size start (x :: xs) = (start, x) :: placed size (start + size x) xs := by
  have h := placed_fold size xs (start + size x) [(start, x)]
  simpa [placed] using h

@[simp] theorem map_snd_placed (start : Nat) (xs : List α) :
    (placed size start xs).map Prod.snd = xs := by
  induction xs generalizing start with
  | nil => rfl
  | cons x xs ih => simp [ih]

end
end Console16
