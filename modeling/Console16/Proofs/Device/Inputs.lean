import Console16.Device.Keys
import Console16.Proofs.Device.Telling
import Mathlib.Data.List.Basic
import Mathlib.Data.List.Induction

/-!
# Console16.Proofs.Device.Inputs

The key table after any history of operations on it. An operation concerns one input or none: the
one it names, or the one that the first binding of its key gives. Whether an input is held down was
said last by the last operation that concerns it, and no other operation has a say.

* `Keymap.lookup_eq_some_iff`: a key stands for the input of its first binding.
* `KeyState.isActive_perform`: one operation, seen from one input.
* `last_operation_decides`: every history.
-/

namespace Console16

inductive KeyOp where
  | set (id : UInt16) (active : Bool)
  | event (keyCode : UInt32) (pressed : Bool)
  deriving DecidableEq, Repr

/-- What the operation says about the input it concerns. -/
def KeyOp.active : KeyOp → Bool
  | .set _ active => active
  | .event _ pressed => pressed

namespace Keymap

/-- The first binding of a key is to this input. -/
def Binds (m : Keymap) (keyCode : UInt32) (id : UInt16) : Prop :=
  ∃ before after, m.bindings = before ++ (keyCode, id) :: after ∧ ∀ b ∈ before, b.1 ≠ keyCode

theorem lookup_eq_some_iff {m : Keymap} {keyCode : UInt32} {id : UInt16} :
    m.lookup keyCode = some id ↔ m.Binds keyCode id := by
  rw [lookup, List.lookup_eq_some_iff, Binds]
  refine exists_congr fun before => exists_congr fun after => and_congr_right fun _ => ?_
  constructor
  · intro h b hb heq
    have := h b hb
    simp [heq] at this
  · intro h b hb
    exact bne_iff_ne.2 (Ne.symm (h b hb))

/-- A binding behind another one of its key can be left out. -/
theorem lookup_of_rebound {before after : List (UInt32 × UInt16)} {b : UInt32 × UInt16}
    (h : ∃ first ∈ before, first.1 = b.1) (keyCode : UInt32) :
    lookup ⟨before ++ b :: after⟩ keyCode = lookup ⟨before ++ after⟩ keyCode := by
  obtain ⟨first, hfirst, hkey⟩ := h
  simp only [lookup, List.lookup_append]
  by_cases hb : keyCode = b.1
  · have hfound : before.lookup keyCode ≠ none := by
      rw [ne_eq, List.lookup_eq_none_iff]
      intro hnone
      exact absurd (hkey.trans hb.symm).symm (bne_iff_ne.1 (hnone first hfirst))
    obtain ⟨id, hid⟩ := Option.ne_none_iff_exists'.1 hfound
    simp [hid]
  · have hbeq : (keyCode == b.1) = false := beq_eq_false_iff_ne.2 hb
    obtain ⟨code, id⟩ := b
    simp only [List.lookup_cons, hbeq]

end Keymap

/-- The operation is about this input. -/
inductive KeyOp.Concerns (m : Keymap) (id : UInt16) : KeyOp → Prop where
  | set (active : Bool) : Concerns m id (.set id active)
  | event {keyCode : UInt32} (pressed : Bool) :
      m.Binds keyCode id → Concerns m id (.event keyCode pressed)

namespace KeyOp

variable {m : Keymap} {id : UInt16}

theorem concerns_set_iff {i : UInt16} {active : Bool} :
    (set i active).Concerns m id ↔ id = i := by
  constructor
  · rintro ⟨-⟩
    rfl
  · rintro rfl
    exact .set active

theorem concerns_event_iff {keyCode : UInt32} {pressed : Bool} :
    (event keyCode pressed).Concerns m id ↔ m.lookup keyCode = some id := by
  rw [Keymap.lookup_eq_some_iff]
  constructor
  · rintro (_ | ⟨-, hbinds⟩)
    exact hbinds
  · intro hbinds
    exact .event pressed hbinds

instance (m : Keymap) (id : UInt16) : (op : KeyOp) → Decidable (op.Concerns m id)
  | .set _ _ => decidable_of_iff _ concerns_set_iff.symm
  | .event _ _ => decidable_of_iff _ concerns_event_iff.symm

end KeyOp

namespace KeyState

def perform (k : KeyState) : KeyOp → KeyState
  | .set id active => k.set id active
  | .event keyCode pressed => k.keyEvent keyCode pressed

/-- The table after some operations. -/
def after (k : KeyState) (ops : List KeyOp) : KeyState :=
  ops.foldl perform k

variable {k : KeyState} {id : UInt16} {op : KeyOp} {ops : List KeyOp}

theorem after_concat (k : KeyState) (ops : List KeyOp) (op : KeyOp) :
    k.after (ops ++ [op]) = (k.after ops).perform op :=
  List.foldl_append

/-! ## One operation -/

theorem keymap_perform (k : KeyState) (op : KeyOp) : (k.perform op).keymap = k.keymap := by
  cases op with
  | set id active => rfl
  | event keyCode pressed =>
    simp only [perform, keyEvent]
    cases k.keymap.lookup keyCode <;> rfl

theorem isActive_perform (k : KeyState) (op : KeyOp) (id : UInt16) :
    (k.perform op).isActive id =
      if op.Concerns k.keymap id then op.active else k.isActive id := by
  cases op with
  | set i active =>
    simp only [perform, isActive_set, KeyOp.concerns_set_iff, KeyOp.active]
  | event keyCode pressed =>
    simp only [perform, keyEvent, KeyOp.concerns_event_iff, KeyOp.active]
    cases k.keymap.lookup keyCode with
    | none => rfl
    | some i => simp only [isActive_set, Option.some.injEq, eq_comm (a := i)]

theorem isActive_tells (id : UInt16) :
    Tells perform (fun k => k.isActive id) (fun k op => op.Concerns k.keymap id) KeyOp.active where
  steady k op later := by rw [keymap_perform]
  told k op h := by rw [isActive_perform, if_pos h]
  untold k op h := by rw [isActive_perform, if_neg h]

/-! ## Histories -/

theorem keymap_after (k : KeyState) (ops : List KeyOp) : (k.after ops).keymap = k.keymap := by
  induction ops generalizing k with
  | nil => rfl
  | cons op ops ih => exact (ih (k.perform op)).trans (keymap_perform k op)

/-- Keymaps that look up alike cannot be told apart by a history. -/
theorem active_after_congr {m n : Keymap} (h : ∀ keyCode, m.lookup keyCode = n.lookup keyCode)
    (ops : List KeyOp) : ((released m).after ops).active = ((released n).after ops).active := by
  induction ops using List.reverseRecOn with
  | nil => rfl
  | append_singleton ops op ih =>
    have hm := keymap_after (released m) ops
    have hn := keymap_after (released n) ops
    rw [after_concat, after_concat]
    generalize (released m).after ops = k at hm ih
    generalize (released n).after ops = l at hn ih
    cases op with
    | set id active =>
      simp only [perform, set, ih]
    | event keyCode pressed =>
      have hkey : k.keymap.lookup keyCode = l.keymap.lookup keyCode := by
        rw [hm, hn]
        exact h keyCode
      simp only [perform, keyEvent, hkey]
      cases l.keymap.lookup keyCode with
      | none => exact ih
      | some id => simp only [set, ih]

end KeyState

/-- After any operations on a new key table, an input is held down as the last operation that
concerns it says, and is not if there is none. Operations that concern other inputs leave it alone,
and so do bindings behind the first of their key, which may as well not be there. -/
theorem last_operation_decides (m : Keymap) (ops : List KeyOp) (id : UInt16) :
    ((∀ op ∈ ops, ¬op.Concerns m id) → ((KeyState.released m).after ops).isActive id = false) ∧
    (∀ before op later, ops = before ++ op :: later → op.Concerns m id →
      (∀ op ∈ later, ¬op.Concerns m id) →
      ((KeyState.released m).after ops).isActive id = op.active) ∧
    (∀ op, ¬op.Concerns m id →
      ((KeyState.released m).after (ops ++ [op])).isActive id =
        ((KeyState.released m).after ops).isActive id) ∧
    ∀ before b after, m.bindings = before ++ b :: after → (∃ first ∈ before, first.1 = b.1) →
      ((KeyState.released ⟨before ++ after⟩).after ops).isActive id =
        ((KeyState.released m).after ops).isActive id := by
  refine ⟨?_, ?_, ?_, ?_⟩
  · intro h
    exact (KeyState.isActive_tells id).foldl_of_none h
  · rintro before op later rfl hop hlater
    exact (KeyState.isActive_tells id).foldl_of_last hop hlater
  · intro op hop
    have hmap : ((KeyState.released m).after ops).keymap = m := KeyState.keymap_after _ ops
    rw [KeyState.after_concat, KeyState.isActive_perform, hmap, if_neg hop]
  · intro before b after hbindings hrebound
    obtain ⟨bindings⟩ := m
    obtain rfl : bindings = before ++ b :: after := hbindings
    have hlookup : ∀ keyCode, Keymap.lookup ⟨before ++ b :: after⟩ keyCode =
        Keymap.lookup ⟨before ++ after⟩ keyCode := Keymap.lookup_of_rebound hrebound
    have hactive := KeyState.active_after_congr hlookup ops
    rw [KeyState.isActive, KeyState.isActive, hactive]

/-- Two keys of one input, and a second binding of the first key. -/
def sharedKeys : Keymap := ⟨[(37, 0), (39, 0), (37, 5)]⟩

theorem last_operation_decides_of_shared_keys :
    let pressed : List KeyOp := [.event 37 true, .event 39 false, .event 37 true]
    ((KeyState.released sharedKeys).after (pressed ++ [.set 5 true, .event 99 false])).isActive 0 =
        true ∧
      ((KeyState.released sharedKeys).after pressed).isActive 5 = false ∧
      ((KeyState.released sharedKeys).after (pressed ++ [.set 5 true])).isActive 0 =
        ((KeyState.released sharedKeys).after pressed).isActive 0 ∧
      ((KeyState.released ⟨[(37, 0), (39, 0)]⟩).after pressed).isActive 0 =
        ((KeyState.released sharedKeys).after pressed).isActive 0 := by
  intro pressed
  refine ⟨?_, ?_, ?_, ?_⟩
  · exact (last_operation_decides sharedKeys _ 0).2.1 [.event 37 true, .event 39 false]
      (.event 37 true) [.set 5 true, .event 99 false] rfl (by decide) (by decide)
  · exact (last_operation_decides sharedKeys pressed 5).1 (by decide)
  · exact (last_operation_decides sharedKeys pressed 0).2.2.1 (.set 5 true) (by decide)
  · exact (last_operation_decides sharedKeys pressed 0).2.2.2 [(37, 0), (39, 0)] (37, 5) [] rfl
      ⟨(37, 0), by decide, rfl⟩

end Console16
