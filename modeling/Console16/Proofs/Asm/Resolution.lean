import Console16.Asm.Assemble
import Console16.Proofs.Asm.Layout
import Console16.Proofs.Asm.Output

/-!
# Console16.Proofs.Asm.Resolution

Label operands and the values that replace them. A listing is a program exactly when every label it
uses is declared and its bytes fit the memory; the program is then the listing with each label
operand replaced, statement by statement.

* `Patched.foldl_patch`: the pass over some statements, by induction on them.
* `Listing.resolve_eq`: resolution, from its errors and the statements it resolves.
* `Listing.resolve_ok_iff`: when it succeeds, and with what.
* `assemble_ok_iff`: the image of a text, from its listing.
-/

namespace Console16

/-- The value of an operand; a name that is declared nowhere counts as zero. -/
def Target.link (labels : LabelTable) : Target → UInt16
  | .value v => v
  | .label ref => UInt16.ofNat ((labels.get? ref.name).getD 0)

namespace Stmt

/-- The statement with its label operand replaced. -/
def link (labels : LabelTable) : Stmt Target → Stmt UInt16
  | .instr line op operands => .instr line op (operands.map (·.link labels))
  | .data line bytes => .data line bytes

/-- The label a statement uses. -/
def ref? : Stmt Target → Option LabelRef
  | .instr _ _ operands =>
    match operands.imm? with
    | some (.label ref) => some ref
    | _ => none
  | .data .. => none

@[simp] theorem byteLen_link (labels : LabelTable) (s : Stmt Target) :
    (s.link labels).byteLen = s.byteLen := by
  cases s <;> rfl

end Stmt

namespace Operands

variable {T U V E : Type} {f : Format}

theorem imm?_map (g : T → U) (o : Operands T f) : (o.map g).imm? = o.imm?.map g := by
  cases o <;> rfl

theorem map_map (g : T → U) (k : U → V) (o : Operands T f) : (o.map g).map k = o.map (k ∘ g) := by
  cases o <;> rfl

theorem map_congr {g k : T → U} {o : Operands T f} (h : ∀ t, o.imm? = some t → g t = k t) :
    o.map g = o.map k := by
  cases o with
  | regImm r imm => rw [map, map, h imm rfl]
  | addr imm => rw [map, map, h imm rfl]
  | _ => rfl

theorem tryMap_eq_ok {g : T → Except E U} {k : T → U} {o : Operands T f}
    (h : ∀ t, o.imm? = some t → g t = .ok (k t)) : o.tryMap g = .ok (o.map k) := by
  cases o with
  | regImm r imm => simp [tryMap, map, h imm rfl, Except.map]
  | addr imm => simp [tryMap, map, h imm rfl, Except.map]
  | _ => rfl

theorem tryMap_eq_error {g : T → Except E U} {o : Operands T f} {t : T} {e : E}
    (ho : o.imm? = some t) (h : g t = .error e) : o.tryMap g = .error e := by
  cases o with
  | regImm r imm =>
    cases ho
    simp [tryMap, h, Except.map]
  | addr imm =>
    cases ho
    simp [tryMap, h, Except.map]
  | _ => cases ho

end Operands

namespace Stmt

theorem resolve_of_declared {labels : LabelTable} {s : Stmt Target}
    (h : ∀ ref, s.ref? = some ref → labels.get? ref.name ≠ none) :
    s.resolve labels = .ok (s.link labels) := by
  cases s with
  | data line bytes => rfl
  | instr line op operands =>
    have ho : operands.tryMap (·.resolve labels) = .ok (operands.map (·.link labels)) := by
      apply Operands.tryMap_eq_ok
      intro t ht
      cases t with
      | value v => rfl
      | label ref =>
        obtain ⟨offset, hoff⟩ := Option.ne_none_iff_exists'.1 (h ref (by simp [ref?, ht]))
        simp [Target.resolve, Target.link, hoff]
    simp [resolve, link, ho, Except.map]

theorem resolve_of_undeclared {labels : LabelTable} {s : Stmt Target} {ref : LabelRef}
    (hs : s.ref? = some ref) (h : labels.get? ref.name = none) :
    s.resolve labels = .error (.located (.unresolvedLabel ref.name) ref.line ref.span) := by
  cases s with
  | data line bytes => cases hs
  | instr line op operands =>
    simp only [ref?] at hs
    split at hs
    · rename_i r ho
      cases hs
      have he : operands.tryMap (·.resolve labels) =
          .error (.located (.unresolvedLabel ref.name) ref.line ref.span) :=
        Operands.tryMap_eq_error ho (by simp [Target.resolve, h])
      simp [resolve, he, Except.map]
    · cases hs

end Stmt

/-- The error of a step that fails. -/
def failure? {T : Type} : Except AsmError T → Option AsmError
  | .ok _ => none
  | .error e => some e

@[simp] theorem failure?_ok {T : Type} (t : T) : failure? (.ok t) = none := rfl

@[simp] theorem failure?_error {T : Type} (e : AsmError) :
    failure? (.error e : Except AsmError T) = some e := rfl

namespace Listing

/-- Every statement with its label operand looked up. -/
def lookedUp (l : Listing) : List (Except AsmError (Stmt UInt16)) :=
  l.stmts.toList.map (·.resolve l.labels)

/-- The errors of the operands that name no label. -/
def unresolved (l : Listing) : List AsmError :=
  l.lookedUp.filterMap failure?

/-- The statements whose operands are resolved. -/
def resolved (l : Listing) : List (Stmt UInt16) :=
  l.lookedUp.filterMap Except.toOption

/-- The error of an image that does not fit. -/
def oversized (l : Listing) : List AsmError :=
  if maxImage < l.byteLen then [.outputTooLarge l.byteLen] else []

end Listing

/-! ## The pass over the statements -/

namespace Patched

/-- One statement more is one resolved more, or one error more. -/
theorem patch_eq (labels : LabelTable) (p : Patched) (s : Stmt Target) :
    p.patch labels s =
      ⟨p.stmts ++ (s.resolve labels).toOption.toList,
        p.errors ++ (failure? (s.resolve labels)).toList⟩ := by
  unfold patch
  cases s.resolve labels with
  | ok t => rfl
  | error e => rfl

theorem foldl_patch (labels : LabelTable) (stmts : List (Stmt Target)) (p : Patched) :
    stmts.foldl (patch labels) p =
      ⟨p.stmts ++ (stmts.map (·.resolve labels)).filterMap Except.toOption,
        p.errors ++ (stmts.map (·.resolve labels)).filterMap failure?⟩ := by
  induction stmts generalizing p with
  | nil => rfl
  | cons s stmts ih =>
    rw [List.foldl_cons, ih, patch_eq, List.map_cons]
    cases s.resolve labels with
    | ok t => rfl
    | error e => rfl

end Patched

namespace Listing

theorem foldl_patch (l : Listing) : l.stmts.foldl (Patched.patch l.labels) .empty =
    ⟨l.resolved.toArray, l.unresolved.toArray⟩ := by
  rw [← Array.foldl_toList, Patched.foldl_patch, Patched.empty]
  simp [resolved, unresolved, lookedUp]

theorem resolve_eq (l : Listing) : l.resolve =
    if l.unresolved ++ l.oversized = [] then .ok ⟨l.resolved, l.labels, l.byteLen⟩
    else .error (l.unresolved ++ l.oversized) := by
  have hall : (if maxImage < l.byteLen then l.unresolved.toArray.push (.outputTooLarge l.byteLen)
      else l.unresolved.toArray) = (l.unresolved ++ l.oversized).toArray := by
    unfold oversized
    split
    · rw [List.push_toArray]
    · rw [List.append_nil]
  rw [resolve, foldl_patch]
  simp only [hall, List.isEmpty_toArray, List.isEmpty_iff]

theorem resolve_eq_ok_iff {l : Listing} {p : Program} :
    l.resolve = .ok p ↔
      l.unresolved = [] ∧ l.oversized = [] ∧ p = ⟨l.resolved, l.labels, l.byteLen⟩ := by
  rw [resolve_eq, ← and_assoc, ← List.append_eq_nil_iff]
  split
  · rename_i h
    simp [h, eq_comm]
  · rename_i h
    simp [h]

/-- Every label that is used is declared. -/
def Declared (l : Listing) : Prop :=
  ∀ s ∈ l.stmts.toList, ∀ ref, s.ref? = some ref → l.labels.get? ref.name ≠ none

/-- The image of a listing, its label operands replaced. -/
def image (l : Listing) : List UInt8 :=
  l.stmts.toList.flatMap fun s => (s.link l.labels).bytes

theorem unresolved_eq_nil_iff {l : Listing} : l.unresolved = [] ↔ l.Declared := by
  unfold unresolved lookedUp
  simp only [List.filterMap_eq_nil_iff, List.mem_map, forall_exists_index, and_imp,
    forall_apply_eq_imp_iff₂]
  constructor
  · intro h s hs ref href hnone
    have := h s hs
    rw [Stmt.resolve_of_undeclared href hnone] at this
    cases this
  · intro h s hs
    rw [Stmt.resolve_of_declared (h s hs), failure?_ok]

theorem resolved_of_declared {l : Listing} (h : l.Declared) :
    l.resolved = l.stmts.toList.map (·.link l.labels) := by
  have hl : l.lookedUp = (l.stmts.toList.map (·.link l.labels)).map .ok := by
    rw [lookedUp, List.map_map]
    exact List.map_congr_left fun s hs => Stmt.resolve_of_declared (h s hs)
  rw [resolved, hl, List.filterMap_map]
  simp [Function.comp_def, Except.toOption]

theorem oversized_eq_nil_iff {l : Listing} : l.oversized = [] ↔ l.byteLen ≤ maxImage := by
  unfold oversized
  split
  · simpa using by assumption
  · simpa using by omega

theorem resolve_ok_iff {l : Listing} {p : Program} :
    l.resolve = .ok p ↔
      l.Declared ∧ l.byteLen ≤ maxImage ∧
        p = ⟨l.stmts.toList.map (·.link l.labels), l.labels, l.byteLen⟩ := by
  rw [resolve_eq_ok_iff, unresolved_eq_nil_iff, oversized_eq_nil_iff]
  constructor
  · rintro ⟨hd, hlen, rfl⟩
    exact ⟨hd, hlen, by rw [resolved_of_declared hd]⟩
  · rintro ⟨hd, hlen, rfl⟩
    exact ⟨hd, hlen, by rw [resolved_of_declared hd]⟩

theorem length_image (l : Listing) : l.image.length = imageLen l.stmts.toList := by
  simp [image, List.length_flatMap, Stmt.length_bytes, imageLen]

theorem image_split {l : Listing} {before after : List (Stmt Target)} {s : Stmt Target}
    (h : l.stmts.toList = before ++ s :: after) :
    ∃ pre post, l.image = pre ++ (s.link l.labels).bytes ++ post ∧
      pre.length = imageLen before := by
  refine ⟨before.flatMap fun s => (s.link l.labels).bytes,
    after.flatMap fun s => (s.link l.labels).bytes, ?_, ?_⟩
  · simp only [image, h, List.flatMap_append, List.flatMap_cons, List.append_assoc]
  · simp [List.length_flatMap, Stmt.length_bytes, imageLen]

theorem image_of_resolve {l : Listing} {p : Program} (h : l.resolve = .ok p) :
    p.image = l.image := by
  obtain ⟨-, -, rfl⟩ := resolve_ok_iff.1 h
  simp only [Program.image_eq, image, List.flatMap_map]

end Listing

theorem assemble_ok_iff {source : String} {image : List UInt8} :
    assemble source = .ok image ↔
      ∃ l, Listing.ofSource source.toList = .ok l ∧ l.Declared ∧ l.byteLen ≤ maxImage ∧
        image = l.image := by
  unfold assemble programOf
  cases h : Listing.ofSource source.toList with
  | error errors => simp [Except.map]
  | ok l =>
    simp only [Except.ok.injEq, exists_eq_left']
    cases hp : l.resolve with
    | error errors =>
      simp only [Except.map, reduceCtorEq, false_iff]
      rintro ⟨hd, hlen, -⟩
      rw [Listing.resolve_ok_iff.2 ⟨hd, hlen, rfl⟩] at hp
      cases hp
    | ok p =>
      obtain ⟨hd, hlen, -⟩ := Listing.resolve_ok_iff.1 hp
      simp only [Except.map, Except.ok.injEq, hd, hlen, true_and, Listing.image_of_resolve hp]
      exact eq_comm

end Console16
