import Mathlib.Data.List.Basic

/-!
# Console16.Proofs.Device.Telling

What is seen at one place of a device, or of memory, after a row of operations. Some operations
are about the place and tell what will be seen there, the others leave it as it is; so the last
operation that is about the place decides, and at a place that none is about nothing changes.

* `Tells.foldl_of_none`: operations that are about other places.
* `Tells.foldl_of_last`: the last operation that is about the place.
-/

namespace Console16

/-- Of the operations that `step` does, those that are `about` a place tell what is seen there, and
the others do not touch it. No operation changes which ones are about the place. -/
structure Tells {S O V : Type} (step : S → O → S) (see : S → V) (about : S → O → Prop)
    (value : O → V) : Prop where
  steady : ∀ s o later, about (step s o) later ↔ about s later
  told : ∀ s o, about s o → see (step s o) = value o
  untold : ∀ s o, ¬about s o → see (step s o) = see s

namespace Tells

variable {S O V : Type} {step : S → O → S} {see : S → V} {about : S → O → Prop} {value : O → V}
variable {s : S}

theorem steady_foldl (t : Tells step see about value) (ops : List O) (o : O) :
    about (ops.foldl step s) o ↔ about s o := by
  induction ops generalizing s with
  | nil => exact Iff.rfl
  | cons first ops ih => exact ih.trans (t.steady s first o)

theorem foldl_of_none (t : Tells step see about value) {ops : List O} (h : ∀ o ∈ ops, ¬about s o) :
    see (ops.foldl step s) = see s := by
  induction ops generalizing s with
  | nil => rfl
  | cons o ops ih =>
    rw [List.foldl_cons, ih, t.untold s o (h o List.mem_cons_self)]
    intro later hlater
    rw [t.steady]
    exact h later (List.mem_cons_of_mem o hlater)

theorem foldl_of_last (t : Tells step see about value) {before later : List O} {o : O}
    (ho : about s o) (h : ∀ o ∈ later, ¬about s o) :
    see ((before ++ o :: later).foldl step s) = value o := by
  rw [List.foldl_append, List.foldl_cons, t.foldl_of_none]
  · exact t.told _ o ((t.steady_foldl before o).2 ho)
  · intro p hp
    rw [t.steady, t.steady_foldl]
    exact h p hp

end Tells
end Console16
