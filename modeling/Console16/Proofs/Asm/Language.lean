import Console16.Proofs.Asm.Reading
import Console16.Proofs.Asm.Resolution
import Console16.Proofs.Source.Tokenizing

/-!
# Console16.Proofs.Asm.Language

The language of the assembler and the image of each of its texts, from what the lines say. A text is
in the language when every line says something, no name is declared twice, every name used is
declared, and the image fits; its image is then the bytes of what its lines say, one after another.

* `assemble_eq_of_reads`, `reads_of_assemble`: the image of a text from the readings of its lines.
* `assemble_succeeds_iff`: exactly the texts of the language are assembled.
-/

namespace Console16

/-! ## The language -/

namespace Reading

/-- The bytes what a line says takes in the image. -/
def size : Reading → Nat
  | .instr .. => codeWordSize
  | .data bytes => alignUp bytes.length
  | _ => 0

def label? : Reading → Option String
  | .label name => some name
  | _ => none

/-- The label an instruction uses. -/
def used? : Reading → Option String
  | .instr _ operands =>
    match operands.imm? with
    | some (.name n) => some n
    | _ => none
  | _ => none

/-- The image of what a line says, given the values of the labels. -/
def bytes (label : String → UInt16) : Reading → List UInt8
  | .instr op operands => (encode op (operands.map (Written.eval label))).toList
  | .data bytes => padded bytes
  | _ => []

end Reading

/-- What the lines of a text say, line by line. -/
def Reads (source : List Char) (rs : List Reading) : Prop :=
  List.Forall₂ Says ((source.splitOn '\n').map words) rs

/-- Lines that go together. -/
structure WellFormed (rs : List Reading) : Prop where
  distinct : (rs.filterMap Reading.label?).Nodup
  declared : ∀ name ∈ rs.filterMap Reading.used?, name ∈ rs.filterMap Reading.label?
  fits : (rs.map Reading.size).sum ≤ maxImage

/-- The texts that have an image. -/
def InLanguage (source : List Char) : Prop :=
  ∃ rs, Reads source rs ∧ WellFormed rs

/-- A label stands for the bytes before the line that declares it, modulo the size of memory. -/
def labelValue (rs : List Reading) (name : String) : UInt16 :=
  UInt16.ofNat ((rs.takeWhile fun r => r.label? ≠ some name).map Reading.size).sum

/-- The image of lines that say this. -/
def Reading.imageOf (rs : List Reading) : List UInt8 :=
  rs.flatMap (Reading.bytes (labelValue rs))

/-! ## Lines and what they say -/

namespace Line

/-- A line is taken for something that reads like this. -/
def Taken (l : Line) (r : Reading) : Prop :=
  ∃ it, l.item = .ok it ∧ Item.reading it = r

theorem honest_tokens (l : Line) : ∀ t ∈ l.tokens, t.Honest := by
  intro t ht
  rw [tokens_eq, tokensAt] at ht
  obtain ⟨w, -, rfl⟩ := List.mem_map.1 ht
  exact Token.honest_ofWord w

theorem chars_tokens (l : Line) : l.tokens.map Token.chars = words l.text := by
  rw [← texts_wordsAt l.offset, tokens_eq, tokensAt, List.map_map]
  exact List.map_congr_left fun w _ => String.toList_ofList

theorem taken_iff {l : Line} {r : Reading} : l.Taken r ↔ Says (words l.text) r := by
  rw [← chars_tokens]
  constructor
  · rintro ⟨it, hit, rfl⟩
    exact Item.says_of_ofTokens l.honest_tokens hit
  · intro h
    exact Item.ofTokens_of_says l.number h rfl l.honest_tokens

theorem Taken.label? {l : Line} {r : Reading} (h : l.Taken r) : l.label? = r.label? := by
  obtain ⟨it, hit, rfl⟩ := h
  unfold Line.label?
  rw [hit]
  rcases it with _ | s | ⟨name, span⟩
  · rfl
  · cases s <;> rfl
  · rfl

/-- A line that is no statement is blank or declares a label. -/
theorem Taken.stmt? {l : Line} {r : Reading} (h : l.Taken r) :
    (∃ s, l.stmt? = some s ∧ r = s.reading) ∨
      l.stmt? = none ∧ (r = .blank ∨ ∃ name, r = .label name) := by
  obtain ⟨it, hit, rfl⟩ := h
  unfold Line.stmt?
  rw [hit]
  rcases it with _ | s | ⟨name, span⟩
  · exact .inr ⟨rfl, .inl rfl⟩
  · exact .inl ⟨s, rfl, rfl⟩
  · exact .inr ⟨rfl, .inr ⟨name, rfl⟩⟩

end Line

theorem Stmt.size_reading (s : Stmt Target) : s.reading.size = s.byteLen := by
  cases s <;> rfl

theorem Stmt.used?_reading (s : Stmt Target) : s.reading.used? = s.ref?.map LabelRef.name := by
  cases s with
  | data line bytes => rfl
  | instr line op operands =>
    simp only [reading, Reading.used?, ref?, Operands.imm?_map]
    rcases operands.imm? with _ | _ | _ <;> rfl

section
variable {lines : List Line} {rs : List Reading}

theorem reads_iff {source : List Char} :
    Reads source rs ↔ List.Forall₂ Line.Taken (sourceLines source) rs := by
  rw [Reads, ← texts_sourceLines, List.map_map, List.forall₂_map_left_iff]
  simp only [Function.comp_apply, ← Line.taken_iff]

theorem exists_taken_iff :
    (∃ rs, List.Forall₂ Line.Taken lines rs) ↔ ∀ l ∈ lines, ∃ it, l.item = .ok it := by
  constructor
  · rintro ⟨rs, h⟩
    induction h with
    | nil => simp
    | cons hl _ ih =>
      obtain ⟨it, hit, -⟩ := hl
      intro l hm
      rcases List.mem_cons.1 hm with rfl | hm
      · exact ⟨it, hit⟩
      · exact ih l hm
  · intro h
    induction lines with
    | nil => exact ⟨[], .nil⟩
    | cons l lines ih =>
      obtain ⟨it, hit⟩ := h l List.mem_cons_self
      obtain ⟨rs, hrs⟩ := ih fun m hm => h m (List.mem_cons_of_mem l hm)
      exact ⟨Item.reading it :: rs, .cons ⟨it, hit, rfl⟩ hrs⟩

theorem labelsOf_eq (h : List.Forall₂ Line.Taken lines rs) :
    labelsOf lines = rs.filterMap Reading.label? := by
  induction h with
  | nil => rfl
  | cons hl _ ih =>
    simp only [labelsOf, List.filterMap_cons, hl.label?] at ih ⊢
    rw [ih]

theorem imageLen_stmtsOf (h : List.Forall₂ Line.Taken lines rs) :
    imageLen (stmtsOf lines) = (rs.map Reading.size).sum := by
  induction h with
  | nil => rfl
  | cons hl _ ih =>
    simp only [stmtsOf, List.filterMap_cons, List.map_cons, List.sum_cons] at ih ⊢
    rcases hl.stmt? with ⟨s, hs, rfl⟩ | ⟨hs, rfl | ⟨name, rfl⟩⟩
    · simp only [hs, imageLen_cons, ih, Stmt.size_reading]
    · simp only [hs, ih, Reading.size, Nat.zero_add]
    · simp only [hs, ih, Reading.size, Nat.zero_add]

/-- Anything said of the statements in turn can be said of the readings instead. -/
theorem flatMap_stmtsOf {β : Type} {f : Stmt Target → List β} {g : Reading → List β}
    (hs : ∀ s, g s.reading = f s) (hb : g .blank = []) (hn : ∀ name, g (.label name) = [])
    (h : List.Forall₂ Line.Taken lines rs) : (stmtsOf lines).flatMap f = rs.flatMap g := by
  induction h with
  | nil => rfl
  | cons hl _ ih =>
    simp only [stmtsOf, List.filterMap_cons, List.flatMap_cons] at ih ⊢
    rcases hl.stmt? with ⟨s, hstmt, rfl⟩ | ⟨hstmt, rfl | ⟨name, rfl⟩⟩
    · simp only [hstmt, List.flatMap_cons, ih, hs]
    · simp only [hstmt, ih, hb, List.nil_append]
    · simp only [hstmt, ih, hn, List.nil_append]

theorem forall₂_takeWhile (name : String) (h : List.Forall₂ Line.Taken lines rs) :
    List.Forall₂ Line.Taken (lines.takeWhile fun l => l.label? ≠ some name)
      (rs.takeWhile fun r => r.label? ≠ some name) := by
  induction h with
  | nil => exact .nil
  | cons hl _ ih =>
    rw [List.takeWhile_cons, List.takeWhile_cons, hl.label?]
    split
    · exact .cons hl ih
    · exact .nil

end

/-- Lines up to the first that declares a name. -/
theorem split_at_label {name : String} {lines : List Line} (h : name ∈ labelsOf lines) :
    ∃ before l after, lines = before ++ l :: after ∧ l.label? = some name ∧
      name ∉ labelsOf before ∧ before = lines.takeWhile fun l => l.label? ≠ some name := by
  induction lines with
  | nil => simp [labelsOf] at h
  | cons m ms ih =>
    by_cases hm : m.label? = some name
    · exact ⟨[], m, ms, rfl, hm, by simp [labelsOf], by simp [hm]⟩
    · have h : name ∈ labelsOf ms := by
        rw [← List.singleton_append, labelsOf_append, labelsOf_singleton] at h
        simpa [hm] using h
      obtain ⟨before, l, after, rfl, hl, hnew, hb⟩ := ih h
      refine ⟨m :: before, l, after, rfl, hl, ?_, ?_⟩
      · rw [← List.singleton_append, labelsOf_append, labelsOf_singleton]
        simp [hm, hnew]
      · rw [List.takeWhile_cons_of_pos (by simpa using hm), ← hb]

theorem get?_labels_of_reads {lines : List Line} {rs : List Reading} {name : String}
    (h : List.Forall₂ Line.Taken lines rs) (hn : name ∈ labelsOf lines) :
    (Draft.ofLines lines).listing.labels.get? name =
      some ((rs.takeWhile fun r => r.label? ≠ some name).map Reading.size).sum := by
  obtain ⟨before, l, after, hsplit, hl, hnew, hb⟩ := split_at_label hn
  rw [← imageLen_stmtsOf (forall₂_takeWhile name h), ← hb, hsplit]
  exact Draft.get?_labels_of_split hl hnew

/-! ## The image of a text -/

theorem Listing.declared_iff {lines : List Line} {rs : List Reading}
    (h : List.Forall₂ Line.Taken lines rs) :
    (Draft.ofLines lines).listing.Declared ↔
      ∀ name ∈ rs.filterMap Reading.used?, name ∈ rs.filterMap Reading.label? := by
  have hused : rs.filterMap Reading.used? =
      (stmtsOf lines).flatMap fun s => (s.ref?.map LabelRef.name).toList := by
    rw [List.filterMap_eq_flatMap_toList]
    exact (flatMap_stmtsOf (fun s => by rw [Stmt.used?_reading]) rfl (fun _ => rfl) h).symm
  unfold Listing.Declared
  rw [hused, ← labelsOf_eq h, Draft.stmts_ofLines]
  simp only [ne_eq, Draft.get?_labels_eq_none_iff, not_not, List.mem_flatMap, Option.mem_toList,
    Option.map_eq_some_iff]
  constructor
  · rintro hd name ⟨s, hs, ref, href, rfl⟩
    exact hd s hs ref href
  · intro hd s hs ref href
    exact hd ref.name ⟨s, hs, ref, href, rfl⟩

theorem Stmt.bytes_link {labels : LabelTable} {label : String → UInt16} {s : Stmt Target}
    (h : ∀ ref, s.ref? = some ref →
      UInt16.ofNat ((labels.get? ref.name).getD 0) = label ref.name) :
    (s.link labels).bytes = s.reading.bytes label := by
  cases s with
  | data line bytes => rfl
  | instr line op operands =>
    have ho : operands.map (·.link labels) =
        (operands.map Target.written).map (Written.eval label) := by
      rw [Operands.map_map]
      apply Operands.map_congr
      intro t ht
      cases t with
      | value v => rfl
      | label ref => exact h ref (by simp [ref?, ht])
    simp only [link, bytes, reading, Reading.bytes, ho]

theorem image_ofLines {lines : List Line} {rs : List Reading}
    (h : List.Forall₂ Line.Taken lines rs) (hd : (Draft.ofLines lines).listing.Declared) :
    (Draft.ofLines lines).listing.image = Reading.imageOf rs := by
  have hlink : ∀ s ∈ stmtsOf lines, (s.link (Draft.ofLines lines).listing.labels).bytes =
      s.reading.bytes (labelValue rs) := by
    intro s hs
    apply Stmt.bytes_link
    intro ref href
    have hn := hd s (by rwa [Draft.stmts_ofLines]) ref href
    rw [ne_eq, Draft.get?_labels_eq_none_iff, not_not] at hn
    rw [get?_labels_of_reads h hn]
    rfl
  rw [Listing.image, Draft.stmts_ofLines, List.flatMap_congr hlink, Reading.imageOf]
  exact flatMap_stmtsOf (fun _ => rfl) rfl (fun _ => rfl) h

/-- A text of the language has the image its lines say. -/
theorem assemble_eq_of_reads {source : String} {rs : List Reading} (hr : Reads source.toList rs)
    (hw : WellFormed rs) : assemble source = .ok (Reading.imageOf rs) := by
  have h := reads_iff.1 hr
  have hd := (Listing.declared_iff h).2 hw.declared
  refine assemble_ok_iff.2 ⟨_, Listing.ofSource_eq_ok_iff.2 ⟨⟨?_, ?_⟩, rfl⟩, hd, ?_, ?_⟩
  · exact exists_taken_iff.1 ⟨rs, h⟩
  · rw [labelsOf_eq h]
    exact hw.distinct
  · rw [Draft.byteLen_ofLines, imageLen_stmtsOf h]
    exact hw.fits
  · exact (image_ofLines h hd).symm

theorem reads_of_assemble {source : String} {image : List UInt8} (h : assemble source = .ok image) :
    ∃ rs, Reads source.toList rs ∧ WellFormed rs := by
  obtain ⟨l, hl, hd, hlen, -⟩ := assemble_ok_iff.1 h
  obtain ⟨⟨hok, hnd⟩, rfl⟩ := Listing.ofSource_eq_ok_iff.1 hl
  obtain ⟨rs, hrs⟩ := exists_taken_iff.2 hok
  refine ⟨rs, reads_iff.2 hrs, ?_, (Listing.declared_iff hrs).1 hd, ?_⟩
  · rwa [← labelsOf_eq hrs]
  · rwa [← imageLen_stmtsOf hrs, ← Draft.byteLen_ofLines]

/-- Exactly the texts of the language are assembled. -/
theorem assemble_succeeds_iff (source : String) :
    (∃ image, assemble source = .ok image) ↔ InLanguage source.toList := by
  constructor
  · rintro ⟨image, h⟩
    exact reads_of_assemble h
  · rintro ⟨rs, hr, hw⟩
    exact ⟨Reading.imageOf rs, assemble_eq_of_reads hr hw⟩

end Console16
