import Console16.Proofs.Asm.Resolution
import Mathlib.Data.List.Forall2

/-!
# Console16.Proofs.Asm.Linking

The outcome of resolving a listing, in full. A program is its listing, statement by statement, with
nothing changed but the label operands; a failure is one error for each operand whose label is not
declared, in the order of the statements, and one for an image that is too large, at the end.

* `Stmt.resolve_eq_ok_iff`: a statement resolves to what it is with its label replaced.
* `Listing.unresolved_eq`: the errors are those of the dangling operands.
* `resolution_is_complete`: success and failure of every listing.
-/

namespace Console16

/-- The value of an operand: as written, or the low sixteen bits of its label's offset. -/
inductive Target.Stands (labels : LabelTable) : Target → UInt16 → Prop where
  | value (v : UInt16) : Stands labels (.value v) v
  | label {ref : LabelRef} {offset : Nat} {v : UInt16} :
      labels.get? ref.name = some offset → v.toNat = offset % 65536 → Stands labels (.label ref) v

/-- The same operands, but for a 16-bit one, where a value takes the place of another. -/
inductive Operands.Replaces {T U : Type} (R : T → U → Prop) :
    {f : Format} → Operands T f → Operands U f → Prop where
  | bare : Replaces R .bare .bare
  | regReg (r1 r2 : Register) : Replaces R (.regReg r1 r2) (.regReg r1 r2)
  | reg (r : Register) : Replaces R (.reg r) (.reg r)
  | regImm (r : Register) {t : T} {u : U} : R t u → Replaces R (.regImm r t) (.regImm r u)
  | addr {t : T} {u : U} : R t u → Replaces R (.addr t) (.addr u)
  | byte (imm : UInt8) : Replaces R (.byte imm) (.byte imm)

inductive Stmt.Replaces {T U : Type} (R : T → U → Prop) : Stmt T → Stmt U → Prop where
  | instr (line : Nat) (op : Opcode) {o : Operands T op.format} {o' : Operands U op.format} :
      o.Replaces R o' → Replaces R (.instr line op o) (.instr line op o')
  | data (line : Nat) (bytes : List UInt8) : Replaces R (.data line bytes) (.data line bytes)

def LabelRef.unresolved (ref : LabelRef) : AsmError :=
  .located (.unresolvedLabel ref.name) ref.line ref.span

/-- The label operands whose name is not declared, in the order of the statements. -/
def Listing.dangling (l : Listing) : List LabelRef :=
  (l.stmts.toList.filterMap Stmt.ref?).filter fun ref => (l.labels.get? ref.name).isNone

/-- A program that is the listing but for its label operands. -/
structure Listing.Links (l : Listing) (p : Program) : Prop where
  stmts : List.Forall₂ (Stmt.Replaces (Target.Stands l.labels)) l.stmts.toList p.stmts
  labels : p.labels = l.labels
  byteLen : p.byteLen = l.byteLen

/-! ## Statements -/

theorem Target.resolve_eq_ok_iff {labels : LabelTable} {t : Target} {v : UInt16} :
    t.resolve labels = .ok v ↔ t.Stands labels v := by
  constructor
  · intro h
    cases t with
    | value w =>
      cases h
      exact .value v
    | label ref =>
      simp only [resolve] at h
      split at h
      · rename_i offset hoffset
        cases h
        exact .label hoffset UInt16.toNat_ofNat'
      · cases h
  · intro h
    cases h with
    | value => rfl
    | @label ref offset v hoffset hv =>
      have hvalue : UInt16.ofNat offset = v := UInt16.toNat_inj.1 (UInt16.toNat_ofNat'.trans hv.symm)
      simp [resolve, hoffset, hvalue]

theorem Operands.tryMap_eq_ok_iff {T U E : Type} {f : Format} {g : T → Except E U}
    {R : T → U → Prop} (hg : ∀ t u, g t = .ok u ↔ R t u) {o : Operands T f} {o' : Operands U f} :
    o.tryMap g = .ok o' ↔ o.Replaces R o' := by
  constructor
  · intro h
    cases o with
    | bare => cases h; exact .bare
    | regReg r1 r2 => cases h; exact .regReg r1 r2
    | reg r => cases h; exact .reg r
    | byte imm => cases h; exact .byte imm
    | regImm r imm =>
      obtain ⟨u, hu, rfl⟩ := Except.map_eq_ok_iff.1 h
      exact .regImm r ((hg imm u).1 hu)
    | addr imm =>
      obtain ⟨u, hu, rfl⟩ := Except.map_eq_ok_iff.1 h
      exact .addr ((hg imm u).1 hu)
  · intro h
    cases h with
    | regImm r h => simp [tryMap, (hg _ _).2 h, Except.map]
    | addr h => simp [tryMap, (hg _ _).2 h, Except.map]
    | _ => rfl

theorem Stmt.resolve_eq_ok_iff {labels : LabelTable} {s : Stmt Target} {t : Stmt UInt16} :
    s.resolve labels = .ok t ↔ s.Replaces (Target.Stands labels) t := by
  constructor
  · intro h
    cases s with
    | data line bytes => cases h; exact .data line bytes
    | instr line op operands =>
      obtain ⟨operands', ho, rfl⟩ := Except.map_eq_ok_iff.1 h
      exact .instr line op ((Operands.tryMap_eq_ok_iff fun _ _ => Target.resolve_eq_ok_iff).1 ho)
  · intro h
    cases h with
    | data line bytes => rfl
    | instr line op ho =>
      have ho' := (Operands.tryMap_eq_ok_iff fun _ _ => Target.resolve_eq_ok_iff).2 ho
      simp [resolve, ho', Except.map]

/-! ## Listings -/

namespace Listing

theorem unresolved_eq (l : Listing) : l.unresolved = l.dangling.map LabelRef.unresolved := by
  unfold unresolved lookedUp dangling
  induction l.stmts.toList with
  | nil => rfl
  | cons s stmts ih =>
    cases href : s.ref? with
    | none =>
      have hs : s.resolve l.labels = .ok (s.link l.labels) :=
        Stmt.resolve_of_declared (by simp [href])
      simpa [hs, href, List.filterMap_cons] using ih
    | some ref =>
      cases hoffset : l.labels.get? ref.name with
      | none =>
        have hs := Stmt.resolve_of_undeclared href hoffset
        simpa [hs, href, hoffset, LabelRef.unresolved, List.filterMap_cons] using ih
      | some offset =>
        have hs : s.resolve l.labels = .ok (s.link l.labels) :=
          Stmt.resolve_of_declared (by simp [href, hoffset])
        simpa [hs, href, hoffset, List.filterMap_cons] using ih

theorem replaces_of_declared {l : Listing} (h : l.Declared) :
    List.Forall₂ (Stmt.Replaces (Target.Stands l.labels)) l.stmts.toList
      (l.stmts.toList.map (·.link l.labels)) := by
  rw [List.forall₂_map_right_iff, List.forall₂_same]
  intro s hs
  exact Stmt.resolve_eq_ok_iff.1 (Stmt.resolve_of_declared (h s hs))

theorem links_of_resolve {l : Listing} {p : Program} (h : l.resolve = .ok p) : l.Links p := by
  obtain ⟨hdeclared, -, rfl⟩ := resolve_ok_iff.1 h
  exact ⟨replaces_of_declared hdeclared, rfl, rfl⟩

theorem exists_resolve_iff {l : Listing} :
    (∃ p, l.resolve = .ok p) ↔ l.Declared ∧ l.byteLen ≤ maxImage := by
  constructor
  · rintro ⟨p, h⟩
    obtain ⟨hdeclared, hfits, -⟩ := resolve_ok_iff.1 h
    exact ⟨hdeclared, hfits⟩
  · rintro ⟨hdeclared, hfits⟩
    exact ⟨_, resolve_ok_iff.2 ⟨hdeclared, hfits, rfl⟩⟩

theorem resolve_eq_error_iff {l : Listing} {errors : List AsmError} :
    l.resolve = .error errors ↔
      ¬(l.Declared ∧ l.byteLen ≤ maxImage) ∧ errors = l.unresolved ++ l.oversized := by
  rw [← unresolved_eq_nil_iff, ← oversized_eq_nil_iff, ← List.append_eq_nil_iff, resolve_eq]
  split
  · rename_i h
    simp [h]
  · rename_i h
    simp [h, eq_comm]

end Listing

theorem AsmError.message_outputTooLarge (n : Nat) :
    (AsmError.outputTooLarge n).message = "Output would be " ++ toString n ++
      " bytes, which is larger than the maximum output size of 65536 bytes." := by
  have htail : " bytes, which is larger than the maximum output size of " ++
      (toString maxImage ++ " bytes.") =
      " bytes, which is larger than the maximum output size of 65536 bytes." := by decide
  calc (AsmError.outputTooLarge n).message
    _ = "Output would be " ++ toString n ++
        (" bytes, which is larger than the maximum output size of " ++
          (toString maxImage ++ " bytes.")) :=
      (String.append_assoc ..).trans (String.append_assoc ..)
    _ = _ := congrArg (("Output would be " ++ toString n) ++ ·) htail

/-- Resolution succeeds exactly when every label used is declared and the image fits; the program is
then the listing, each label operand replaced. Otherwise the errors are the dangling operands, one
for each statement that has one, and last the size of an image that does not fit. -/
theorem resolution_is_complete (l : Listing) :
    ((∃ p, l.resolve = .ok p) ↔ l.Declared ∧ l.byteLen ≤ 65536) ∧
      (∀ p, l.resolve = .ok p → l.Links p) ∧
      (∀ errors, l.resolve = .error errors ↔
        ¬(l.Declared ∧ l.byteLen ≤ 65536) ∧
          errors = l.dangling.map LabelRef.unresolved ++
            if 65536 < l.byteLen then [.outputTooLarge l.byteLen] else []) ∧
      ∀ n, (AsmError.outputTooLarge n).message = "Output would be " ++ toString n ++
        " bytes, which is larger than the maximum output size of 65536 bytes." := by
  refine ⟨Listing.exists_resolve_iff, fun p => Listing.links_of_resolve, ?_,
    AsmError.message_outputTooLarge⟩
  intro errors
  rw [Listing.resolve_eq_error_iff, Listing.unresolved_eq]
  rfl

/-- A label behind the last byte of a full memory, used before it is declared. -/
def fullListing : Listing :=
  ⟨#[.instr 1 .jmpi (.addr (.label ⟨"end", 1, ⟨5, 3⟩⟩)), .data 2 (List.replicate 65532 0xff)],
    ⟨#[("end", 65536)]⟩, 65536⟩

/-- One undeclared name twice, a declared one between, and four bytes too many. -/
def brokenListing : Listing :=
  ⟨#[.instr 1 .jmpi (.addr (.label ⟨"a", 1, ⟨5, 1⟩⟩)),
      .instr 2 .call (.addr (.label ⟨"end", 2, ⟨12, 3⟩⟩)),
      .instr 3 .movi (.regImm (.ofNibble 2) (.label ⟨"a", 3, ⟨25, 1⟩⟩)),
      .data 4 (List.replicate 65528 0xff)],
    ⟨#[("end", 65540)]⟩, 65540⟩

theorem resolution_is_complete_of_full_and_broken :
    (∃ p, fullListing.resolve = .ok p ∧ fullListing.Links p ∧
      p.stmts = [.instr 1 .jmpi (.addr 0), .data 2 (List.replicate 65532 0xff)]) ∧
      brokenListing.resolve = .error [.located (.unresolvedLabel "a") 1 ⟨5, 1⟩,
        .located (.unresolvedLabel "a") 3 ⟨25, 1⟩, .outputTooLarge 65540] := by
  have hresolve : ∃ p, fullListing.resolve = .ok p ∧
      p.stmts = [.instr 1 .jmpi (.addr 0), .data 2 (List.replicate 65532 0xff)] := ⟨_, rfl, rfl⟩
  obtain ⟨p, hp, hstmts⟩ := hresolve
  have hsize : ¬brokenListing.byteLen ≤ 65536 := by decide
  refine ⟨⟨p, hp, (resolution_is_complete fullListing).2.1 p hp, hstmts⟩, ?_⟩
  apply ((resolution_is_complete brokenListing).2.2.1 _).2
  exact ⟨fun h => hsize h.2, rfl⟩

end Console16
