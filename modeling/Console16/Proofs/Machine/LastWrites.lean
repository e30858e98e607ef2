import Console16.Proofs.Device.Telling
import Console16.Proofs.Machine.Loaded

/-!
# Console16.Proofs.Machine.LastWrites

Main memory after any writes of bytes and of words. A word is two bytes, the high one at its address
and the low one at the next, and behind the last address comes the first. Every byte reads as the
last write that covers it has left it, and as it was loaded if there is none.

* `MemoryOp.puts_iff`: what a write leaves where.
* `Memory.read_perform`, `Memory.read_tells`: one write, seen from one address.
* `Memory.readWord_succ_writeWord`, `Memory.readWord_writeWord_succ`: words that share a byte.
* `memory_keeps_last_writes`: every image and every sequence of writes.
-/

namespace Console16

/-- A write to memory. -/
inductive MemoryOp where
  | byte (a : UInt16) (b : UInt8)
  | word (a v : UInt16)

namespace MemoryOp

variable {x : UInt16} {b : UInt8} {op : MemoryOp}

/-- The write puts this byte at this address. -/
inductive Puts (x : UInt16) : MemoryOp → UInt8 → Prop where
  | byte (b : UInt8) : Puts x (.byte x b) b
  | high {v : UInt16} {b : UInt8} : b.toNat = v.toNat / 256 → Puts x (.word x v) b
  | low {a v : UInt16} {b : UInt8} :
      x.toNat = (a.toNat + 1) % 65536 → b.toNat = v.toNat % 256 → Puts x (.word a v) b

/-- The byte that the write leaves at an address. -/
def put? (x : UInt16) : MemoryOp → Option UInt8
  | .byte a b => if x = a then some b else none
  | .word a v => if x = a + 1 then some (loByte v) else if x = a then some (hiByte v) else none

theorem eq_add_one_iff {a : UInt16} : x = a + 1 ↔ x.toNat = (a.toNat + 1) % 65536 := by
  rw [← UInt16.toNat_inj, UInt16.toNat_add]
  rfl

theorem ne_add_one (a : UInt16) : a ≠ a + 1 := by
  intro h
  have := eq_add_one_iff.1 h
  have := a.toNat_lt
  omega

theorem ne_add_two (a : UInt16) : a ≠ a + 1 + 1 := by
  intro h
  have := eq_add_one_iff.1 h
  have := eq_add_one_iff.1 (rfl : a + 1 = a + 1)
  have := a.toNat_lt
  omega

theorem eq_hiByte_iff {v : UInt16} : b = hiByte v ↔ b.toNat = v.toNat / 256 := by
  rw [← UInt8.toNat_inj, toNat_hiByte]

theorem eq_loByte_iff {v : UInt16} : b = loByte v ↔ b.toNat = v.toNat % 256 := by
  rw [← UInt8.toNat_inj, toNat_loByte]

theorem puts_iff : Puts x op b ↔ op.put? x = some b := by
  constructor
  · intro h
    cases h with
    | byte b => simp [put?]
    | @high v b hb => simp [put?, ne_add_one x, eq_hiByte_iff.2 hb]
    | @low a v b hx hb => simp [put?, eq_add_one_iff.2 hx, eq_loByte_iff.2 hb]
  · intro h
    cases op with
    | byte a c =>
      simp only [put?] at h
      split at h
      · rename_i hx
        cases h
        cases hx
        exact .byte b
      · cases h
    | word a v =>
      simp only [put?] at h
      split at h
      · rename_i hx
        cases h
        exact .low (eq_add_one_iff.1 hx) (eq_loByte_iff.1 rfl)
      · split at h
        · rename_i hx
          cases h
          cases hx
          exact .high (eq_hiByte_iff.1 rfl)
        · cases h

/-- The write covers this address. -/
def Covers (op : MemoryOp) (x : UInt16) : Prop :=
  ∃ b, Puts x op b

theorem not_covers_iff : ¬op.Covers x ↔ op.put? x = none := by
  simp only [Covers, puts_iff, not_exists, ← Option.eq_none_iff_forall_ne_some]

instance (op : MemoryOp) (x : UInt16) (b : UInt8) : Decidable (Puts x op b) :=
  decidable_of_iff _ puts_iff.symm

instance (op : MemoryOp) (x : UInt16) : Decidable (op.Covers x) :=
  decidable_of_iff (¬op.put? x = none) (by rw [← not_covers_iff, not_not])

end MemoryOp

namespace Memory

variable {m : Memory} {a v w x : UInt16} {b : UInt8}

def perform (m : Memory) : MemoryOp → Memory
  | .byte a b => m.write a b
  | .word a v => m.writeWord a v

/-- Memory after some writes. -/
def after (m : Memory) (ops : List MemoryOp) : Memory :=
  ops.foldl perform m

theorem after_append (m : Memory) (ops later : List MemoryOp) :
    m.after (ops ++ later) = (m.after ops).after later :=
  List.foldl_append

/-! ## One write -/

theorem read_perform (m : Memory) (op : MemoryOp) (x : UInt16) :
    (m.perform op).read x = (op.put? x).getD (m.read x) := by
  cases op with
  | byte a b =>
    simp only [perform, read_write, MemoryOp.put?]
    split <;> rfl
  | word a v =>
    simp only [perform, read_writeWord, MemoryOp.put?]
    split
    · rfl
    · split <;> rfl

theorem read_tells (x : UInt16) :
    Tells perform (fun m => m.read x) (fun _ op => op.Covers x) fun op => (op.put? x).getD 0 where
  steady _ _ _ := Iff.rfl
  told m op h := by
    obtain ⟨b, hb⟩ := h
    rw [read_perform, MemoryOp.puts_iff.1 hb]
    rfl
  untold m op h := by
    rw [read_perform, MemoryOp.not_covers_iff.1 h]
    rfl

/-! ## Words that share a byte -/

theorem readWord_succ_writeWord (m : Memory) (a v : UInt16) :
    (m.writeWord a v).readWord (a + 1) = wordOf (loByte v) (m.read (a + 1 + 1)) := by
  rw [readWord, read_writeWord, read_writeWord, if_pos rfl,
    if_neg (MemoryOp.ne_add_one (a + 1)).symm, if_neg (MemoryOp.ne_add_two a).symm]

theorem readWord_writeWord_succ (m : Memory) (a w : UInt16) :
    (m.writeWord (a + 1) w).readWord a = wordOf (m.read a) (hiByte w) := by
  rw [readWord, read_writeWord, read_writeWord, if_neg (MemoryOp.ne_add_two a),
    if_neg (MemoryOp.ne_add_one a), if_neg (MemoryOp.ne_add_one (a + 1)), if_pos rfl]

/-! ## All writes -/

theorem read_after_of_put {ops before later : List MemoryOp} {op : MemoryOp}
    (hops : ops = before ++ op :: later) (hop : op.Puts x b) (hlater : ∀ o ∈ later, ¬o.Covers x) :
    (m.after ops).read x = b := by
  have hlast : (m.after (before ++ op :: later)).read x = (op.put? x).getD 0 :=
    (read_tells x).foldl_of_last ⟨b, hop⟩ hlater
  rw [hops, hlast, MemoryOp.puts_iff.1 hop]
  rfl

theorem read_after_of_untouched {ops : List MemoryOp} (h : ∀ op ∈ ops, ¬op.Covers x) :
    (m.after ops).read x = m.read x :=
  (read_tells x).foldl_of_none h

theorem toList_fetch (m : Memory) (a : UInt16) :
    (m.fetch a).toList =
      (List.range 4).map fun i => m.read (UInt16.ofNat ((a.toNat + i) % 65536)) := by
  have hadd : ∀ i : Nat, a + UInt16.ofNat i = UInt16.ofNat ((a.toNat + i) % 65536) := by
    intro i
    apply UInt16.toNat_inj.1
    rw [UInt16.toNat_add, UInt16.toNat_ofNat', UInt16.toNat_ofNat', Nat.mod_mod, Nat.add_mod_mod]
  have hzero : a = a + UInt16.ofNat 0 := (UInt16.add_zero a).symm
  simp only [List.range_succ, List.range_zero, List.nil_append, List.map_append, List.map_cons,
    List.map_nil, ← hadd, fetch, CodeWord.toList]
  rw [← hzero]
  rfl

/-- Two words that share a byte, in either order: the one written last reads back, and of the other
one the byte that is left. -/
theorem readWord_after_overlap (m : Memory) (a v w : UInt16) :
    ((m.after [.word a v, .word (a + 1) w]).readWord (a + 1) = w ∧
      (m.after [.word a v, .word (a + 1) w]).readWord a = wordOf (hiByte v) (hiByte w)) ∧
    (m.after [.word (a + 1) w, .word a v]).readWord a = v ∧
      (m.after [.word (a + 1) w, .word a v]).readWord (a + 1) = wordOf (loByte v) (loByte w) := by
  refine ⟨⟨readWord_writeWord _ _ _, ?_⟩, readWord_writeWord _ _ _, ?_⟩
  · change ((m.writeWord a v).writeWord (a + 1) w).readWord a = _
    rw [readWord_writeWord_succ, read_writeWord, if_neg (MemoryOp.ne_add_one a), if_pos rfl]
  · change ((m.writeWord (a + 1) w).writeWord a v).readWord (a + 1) = _
    rw [readWord_succ_writeWord, read_writeWord, if_pos rfl]

end Memory

/-- An image that fits is loaded, and after any writes every byte reads as the last write that
covers it has left it, or as the image has it, with zeros behind the image. A word is read from its
address and the next, an instruction from four addresses in a row, all of them modulo 65536. So no
write loses or doubles a byte: a word reads back until a byte of it is written again, and of two words
that share a byte the one written last has it. -/
theorem memory_keeps_last_writes (image : List UInt8) (hfits : image.length ≤ 65536)
    (ops : List MemoryOp) :
    ∃ m, Memory.load image = .ok m ∧
      (∀ x, (∀ op ∈ ops, ¬op.Covers x) →
        (m.after ops).read x = if h : x.toNat < image.length then image[x.toNat] else 0) ∧
      (∀ x b before op later, ops = before ++ op :: later → op.Puts x b →
        (∀ o ∈ later, ¬o.Covers x) → (m.after ops).read x = b) ∧
      (∀ a next, next.toNat = (a.toNat + 1) % 65536 →
        ((m.after ops).readWord a).toNat =
          256 * ((m.after ops).read a).toNat + ((m.after ops).read next).toNat) ∧
      (∀ a, ((m.after ops).fetch a).toList =
        (List.range 4).map fun i => (m.after ops).read (UInt16.ofNat ((a.toNat + i) % 65536))) ∧
      (∀ a v before later, ops = before ++ .word a v :: later →
        (∀ o ∈ later, ¬o.Covers a ∧ ¬o.Covers (a + 1)) → (m.after ops).readWord a = v) ∧
      ∀ a v w,
        ((m.after (ops ++ [.word a v, .word (a + 1) w])).readWord (a + 1) = w ∧
          (m.after (ops ++ [.word a v, .word (a + 1) w])).readWord a =
            wordOf (hiByte v) (hiByte w)) ∧
        (m.after (ops ++ [.word (a + 1) w, .word a v])).readWord a = v ∧
          (m.after (ops ++ [.word (a + 1) w, .word a v])).readWord (a + 1) =
            wordOf (loByte v) (loByte w) := by
  obtain ⟨m, hload, hholds⟩ := Memory.exists_load hfits
  refine ⟨m, hload, ?_, ?_, ?_, ?_, ?_, ?_⟩
  · intro x hx
    rw [Memory.read_after_of_untouched hx, hholds x x.toNat_lt]
    split
    · rename_i hlt
      exact List.getD_eq_getElem image 0 hlt
    · rename_i hge
      exact List.getD_eq_default image 0 (Nat.le_of_not_lt hge)
  · intro x b before op later hops hop hlater
    exact Memory.read_after_of_put hops hop hlater
  · intro a next hnext
    rw [Memory.readWord, toNat_wordOf, MemoryOp.eq_add_one_iff.2 hnext]
  · intro a
    exact Memory.toList_fetch _ a
  · intro a v before later hops hlater
    have hhigh : (m.after ops).read a = hiByte v :=
      Memory.read_after_of_put hops (.high (toNat_hiByte v)) fun o ho => (hlater o ho).1
    have hlow : (m.after ops).read (a + 1) = loByte v :=
      Memory.read_after_of_put hops (.low (MemoryOp.eq_add_one_iff.1 rfl) (toNat_loByte v))
        fun o ho => (hlater o ho).2
    rw [Memory.readWord, hhigh, hlow, wordOf_bytes]
  · intro a v w
    rw [Memory.after_append, Memory.after_append]
    exact Memory.readWord_after_overlap _ a v w

/-- A word at the last address, whose low byte goes over the high byte of the word at 0. -/
def wrappingWrites : List MemoryOp :=
  [.word 0 0xabcd, .word 0xffff 0x1234, .byte 2 7]

theorem memory_keeps_last_writes_of_last_address :
    ∃ m, Memory.load [1, 2, 3, 4] = .ok m ∧
      (m.after wrappingWrites).read 3 = 4 ∧
      (m.after wrappingWrites).read 1 = 0xcd ∧
      (m.after wrappingWrites).readWord 0xffff = 0x1234 ∧
      ((m.after wrappingWrites).readWord 0).toNat =
        256 * ((m.after wrappingWrites).read 0).toNat + 0xcd := by
  obtain ⟨m, hload, huntouched, hput, hword, -, hback, -⟩ :=
    memory_keeps_last_writes [1, 2, 3, 4] (by decide) wrappingWrites
  have hlow : (m.after wrappingWrites).read 1 = 0xcd :=
    hput 1 0xcd [] (.word 0 0xabcd) [.word 0xffff 0x1234, .byte 2 7] rfl (by decide) (by decide)
  refine ⟨m, hload, ?_, hlow, ?_, ?_⟩
  · exact huntouched 3 (by decide)
  · exact hback 0xffff 0x1234 [.word 0 0xabcd] [.byte 2 7] rfl (by decide)
  · rw [hword 0 1 rfl, hlow]
    rfl

end Console16
