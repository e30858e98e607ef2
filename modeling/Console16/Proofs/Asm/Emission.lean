import Console16.Proofs.Asm.Resolution

/-!
# Console16.Proofs.Asm.Emission

Laying out and writing out. A listing is built from statements and labels in any order; its length
grows by each statement and a label stands for the length so far. The image is written in another
way: after data the whole output is filled up with zeros. Both agree because the length is a multiple
of four before every statement.

* `Listing.WellLaid.lay`: what one more statement or label keeps.
* `Listing.lays_ofParts`: a listing, from the statements and labels it was built of.
* `layout_and_image_agree`: each statement has the bytes in the image that the layout gives it.
-/

namespace Console16

/-- What is laid out: a statement, or the declaration of a label. -/
inductive Part where
  | stmt (s : Stmt Target)
  | label (name : String)

namespace Part

def stmt? : Part → Option (Stmt Target)
  | .stmt s => some s
  | .label _ => none

def label? : Part → Option String
  | .stmt _ => none
  | .label name => some name

end Part

def stmtParts (parts : List Part) : List (Stmt Target) :=
  parts.filterMap Part.stmt?

def labelParts (parts : List Part) : List String :=
  parts.filterMap Part.label?

/-- What comes before the first declaration of a name. -/
def partsBefore (name : String) (parts : List Part) : List Part :=
  parts.takeWhile fun p => p.label? != some name

namespace Listing

/-- One more statement, or one more label; a name that is declared already changes nothing. -/
def lay (l : Listing) : Part → Listing
  | .stmt s => l.add s
  | .label name => (l.declare? name).getD l

def ofParts (parts : List Part) : Listing :=
  parts.foldl lay empty

/-- What holds of a listing at any time. -/
structure WellLaid (l : Listing) : Prop where
  byteLen : l.byteLen = imageLen l.stmts.toList
  nodup : (l.labels.toList.map Prod.fst).Nodup
  sorted : (l.labels.toList.map Prod.snd).Pairwise (· ≤ ·)
  within : ∀ offset ∈ l.labels.toList.map Prod.snd, 4 ∣ offset ∧ offset ≤ l.byteLen

/-- A listing is what its parts say: the statements in order, and each name once, in the order of the
first declarations, with the length at that moment. -/
structure Lays (parts : List Part) (l : Listing) : Prop extends WellLaid l where
  aligned : 4 ∣ l.byteLen
  stmts : l.stmts.toList = stmtParts parts
  refused : ∀ name, l.declare? name = none ↔ .label name ∈ parts
  kept : ∀ name, .label name ∈ parts → ofParts (parts ++ [.label name]) = l
  labels : l.labels.toList = (labelParts parts).eraseDups.map fun name =>
    (name, (ofParts (partsBefore name parts)).byteLen)

end Listing

/-- The bytes are those of a statement: its code word, or its data with fewer than four zeros. -/
def Stmt.Occupies (s : Stmt UInt16) (bytes : List UInt8) : Prop :=
  bytes.length = s.byteLen ∧
    match s with
    | .instr _ op operands => bytes = (encode op operands).toList
    | .data _ row => ∃ n < 4, bytes = row ++ List.replicate n 0

/-- A program fills the bytes that its listing lays out. -/
structure Program.Fills (l : Listing) (p : Program) : Prop where
  byteLen : p.byteLen = l.byteLen
  length : p.image.length = l.byteLen
  emitted : p.image = p.stmts.flatMap Stmt.bytes
  placed : ∀ before s after, l.stmts.toList = before ++ s :: after →
    ∃ t, s.resolve l.labels = .ok t ∧
      t.Occupies ((p.image.drop (imageLen before)).take s.byteLen)

/-! ## One part more -/

namespace Listing

variable {l : Listing}

theorem wellLaid_empty : WellLaid empty :=
  ⟨rfl, .nil, .nil, nofun⟩

theorem WellLaid.add (h : WellLaid l) (s : Stmt Target) : WellLaid (l.add s) where
  byteLen := by simp [h.byteLen]
  nodup := h.nodup
  sorted := h.sorted
  within := by
    intro offset ho
    obtain ⟨hdvd, hle⟩ := h.within offset ho
    exact ⟨hdvd, hle.trans (Nat.le_add_right _ _)⟩

theorem WellLaid.aligned (h : WellLaid l) : 4 ∣ l.byteLen := by
  rw [h.byteLen]
  exact imageLen_dvd _

theorem declare?_eq_none_iff_mem {name : String} :
    l.declare? name = none ↔ name ∈ l.labels.toList.map Prod.fst := by
  rw [declare?_eq_none_iff, Option.isSome_iff_ne_none, ne_eq, LabelTable.get?_eq_none_iff, not_not]

theorem notMem_of_declare? {name : String} {l' : Listing} (h : l.declare? name = some l') :
    name ∉ l.labels.toList.map Prod.fst := by
  intro hmem
  rw [declare?_eq_none_iff_mem.2 hmem] at h
  cases h

theorem WellLaid.declare {name : String} {l' : Listing} (h : WellLaid l)
    (hl' : l.declare? name = some l') : WellLaid l' := by
  obtain ⟨hstmts, hlen, hlabels⟩ := of_declare? hl'
  have hlist := LabelTable.toList_insert? hlabels
  constructor
  case byteLen => rw [hlen, hstmts, h.byteLen]
  case nodup =>
    rw [hlist, List.map_append, List.nodup_append_comm]
    exact List.nodup_cons.2 ⟨notMem_of_declare? hl', h.nodup⟩
  case sorted =>
    rw [hlist, List.map_append, List.pairwise_append]
    refine ⟨h.sorted, List.pairwise_singleton _ _, ?_⟩
    intro offset ho o ho'
    rw [List.mem_singleton.1 ho']
    exact (h.within offset ho).2
  case within =>
    intro offset ho
    rw [hlist, List.map_append, List.mem_append] at ho
    rw [hlen]
    rcases ho with ho | ho
    · exact h.within offset ho
    · rw [List.mem_singleton.1 ho]
      exact ⟨h.aligned, Nat.le_refl _⟩

theorem WellLaid.lay (h : WellLaid l) (p : Part) : WellLaid (l.lay p) := by
  cases p with
  | stmt s => exact h.add s
  | label name =>
    cases hd : l.declare? name with
    | none => simpa [Listing.lay, hd] using h
    | some l' => simpa [Listing.lay, hd] using h.declare hd

/-! ## All parts -/

theorem ofParts_concat (parts : List Part) (p : Part) :
    ofParts (parts ++ [p]) = (ofParts parts).lay p := by
  simp [ofParts]

theorem wellLaid_ofParts (parts : List Part) : WellLaid (ofParts parts) := by
  induction parts using List.reverseRecOn with
  | nil => exact wellLaid_empty
  | append_singleton parts p ih =>
    rw [ofParts_concat]
    exact ih.lay p

theorem stmts_lay (p : Part) : (l.lay p).stmts.toList = l.stmts.toList ++ p.stmt?.toList := by
  cases p with
  | stmt s => simp [lay, Part.stmt?]
  | label name =>
    cases hd : l.declare? name with
    | none => simp [lay, hd, Part.stmt?]
    | some l' => simp [lay, hd, Part.stmt?, (of_declare? hd).1]

theorem stmts_ofParts (parts : List Part) :
    (ofParts parts).stmts.toList = stmtParts parts := by
  induction parts using List.reverseRecOn with
  | nil => rfl
  | append_singleton parts p ih =>
    rw [ofParts_concat, stmts_lay, ih]
    cases p <;> simp [stmtParts, Part.stmt?]

end Listing

theorem mem_labelParts {parts : List Part} {name : String} :
    name ∈ labelParts parts ↔ .label name ∈ parts := by
  simp only [labelParts, List.mem_filterMap]
  constructor
  · rintro ⟨p, hp, hname⟩
    cases p with
    | stmt s => cases hname
    | label n =>
      cases hname
      exact hp
  · intro h
    exact ⟨_, h, rfl⟩

theorem labelParts_concat (parts : List Part) (p : Part) :
    labelParts (parts ++ [p]) = labelParts parts ++ p.label?.toList := by
  cases p <;> simp [labelParts, Part.label?]

theorem partsBefore_append {parts : List Part} {name : String} (h : .label name ∈ parts)
    (more : List Part) : partsBefore name (parts ++ more) = partsBefore name parts := by
  rw [partsBefore, List.takeWhile_append, if_neg]
  · rfl
  · intro hlen
    have hall := (List.takeWhile_prefix _).eq_of_length hlen
    have hne := List.all_eq_true.1 List.all_takeWhile _ (hall ▸ h)
    simp [Part.label?] at hne

theorem partsBefore_concat {parts : List Part} {name : String} (h : .label name ∉ parts) :
    partsBefore name (parts ++ [.label name]) = parts := by
  have hall : ∀ p ∈ parts, (p.label? != some name) = true := by
    intro p hp
    rw [bne_iff_ne]
    intro hname
    cases p with
    | stmt s => cases hname
    | label n =>
      cases hname
      exact h hp
  rw [partsBefore, List.takeWhile_append_of_pos hall]
  simp [Part.label?]

namespace Listing

theorem labels_ofParts (parts : List Part) :
    (ofParts parts).labels.toList = (labelParts parts).eraseDups.map fun name =>
      (name, (ofParts (partsBefore name parts)).byteLen) := by
  induction parts using List.reverseRecOn with
  | nil => rfl
  | append_singleton parts p ih =>
    have hold : (ofParts parts).labels.toList = (labelParts parts).eraseDups.map fun name =>
        (name, (ofParts (partsBefore name (parts ++ [p]))).byteLen) := by
      rw [ih]
      apply List.map_congr_left
      intro name hname
      rw [partsBefore_append (mem_labelParts.1 (List.mem_eraseDups.1 hname))]
    have hnames : ∀ name, name ∈ (ofParts parts).labels.toList.map Prod.fst ↔
        name ∈ labelParts parts := by
      intro name
      simp [ih]
    rw [ofParts_concat, labelParts_concat, List.eraseDups_append, List.map_append, ← hold]
    cases p with
    | stmt s => simp [lay, Part.label?, List.removeAll, add]
    | label name =>
      cases hd : (ofParts parts).declare? name with
      | none =>
        have hmem := (hnames name).1 (declare?_eq_none_iff_mem.1 hd)
        simp [lay, hd, Part.label?, List.removeAll, hmem]
      | some l' =>
        have hnew : name ∉ labelParts parts := (hnames name).not.1 (notMem_of_declare? hd)
        have hbefore := partsBefore_concat (mem_labelParts.not.1 hnew)
        simp [lay, hd, Part.label?, List.removeAll, hnew, hbefore, List.eraseDups_cons,
          LabelTable.toList_insert? (of_declare? hd).2.2]

theorem declare?_ofParts_eq_none_iff {parts : List Part} {name : String} :
    (ofParts parts).declare? name = none ↔ .label name ∈ parts := by
  rw [declare?_eq_none_iff_mem, labels_ofParts, ← mem_labelParts]
  simp

theorem lays_ofParts (parts : List Part) : Lays parts (ofParts parts) where
  toWellLaid := wellLaid_ofParts parts
  aligned := (wellLaid_ofParts parts).aligned
  stmts := stmts_ofParts parts
  refused _ := declare?_ofParts_eq_none_iff
  kept name h := by
    rw [ofParts_concat, lay, declare?_ofParts_eq_none_iff.2 h]
    rfl
  labels := labels_ofParts parts

end Listing

/-! ## The output -/

theorem occupies_bytes (s : Stmt UInt16) : s.Occupies s.bytes := by
  refine ⟨s.length_bytes, ?_⟩
  cases s with
  | instr line op operands => rfl
  | data line row =>
    refine ⟨alignUp row.length - row.length, ?_, rfl⟩
    simp only [alignUp, codeWordSize]
    omega

theorem Program.fills_of_resolve {l : Listing} {p : Program} (hl : l.WellLaid)
    (h : l.resolve = .ok p) : p.Fills l := by
  have himage := Listing.image_of_resolve h
  obtain ⟨hdeclared, -, hp⟩ := Listing.resolve_ok_iff.1 h
  constructor
  case byteLen => rw [hp]
  case length => rw [himage, Listing.length_image, hl.byteLen]
  case emitted => exact p.image_eq
  case placed =>
    intro before s after hsplit
    have hmem : s ∈ l.stmts.toList := by simp [hsplit]
    refine ⟨s.link l.labels, Stmt.resolve_of_declared (hdeclared s hmem), ?_⟩
    obtain ⟨pre, post, hbytes, hpre⟩ := Listing.image_split hsplit
    have hslice : (p.image.drop (imageLen before)).take s.byteLen = (s.link l.labels).bytes := by
      rw [himage, hbytes, List.append_assoc, ← hpre, List.drop_left,
        ← Stmt.byteLen_link l.labels, ← Stmt.length_bytes, List.take_left]
    rw [hslice]
    exact occupies_bytes _

/-- Layout and image agree, whatever is laid out. The length is the sum of the statements', a multiple
of four; a label is listed once, with the length at its first declaration, and a second declaration
is refused. If the labels resolve and the image fits, the image has that length and each statement
has its bytes behind those of the statements before it. -/
theorem layout_and_image_agree (parts : List Part) :
    Listing.Lays parts (Listing.ofParts parts) ∧
      ∀ p, (Listing.ofParts parts).resolve = .ok p → p.Fills (Listing.ofParts parts) :=
  ⟨Listing.lays_ofParts parts,
    fun _ => Program.fills_of_resolve (Listing.wellLaid_ofParts parts)⟩

/-- A label used before it is declared, a row of five bytes, a row without any, and a second
declaration. -/
def mixedParts : List Part :=
  [.label "start", .stmt (.instr 2 .jmpi (.addr (.label ⟨"end", 2, ⟨5, 3⟩⟩))),
    .stmt (.data 3 [1, 2, 3, 4, 5]), .label "start", .stmt (.data 5 []), .label "end",
    .stmt (.instr 7 .movi (.regImm (.ofNibble 2) (.label ⟨"start", 7, ⟨40, 5⟩⟩)))]

theorem layout_and_image_agree_of_mixed :
    ∃ p, (Listing.ofParts mixedParts).resolve = .ok p ∧ p.Fills (Listing.ofParts mixedParts) ∧
      p.image = [0x31, 0, 12, 0, 1, 2, 3, 4, 5, 0, 0, 0, 7, 2, 0, 0] ∧
      (Listing.ofParts mixedParts).labels.toList = [("start", 0), ("end", 12)] := by
  have hresolve : ∃ p, (Listing.ofParts mixedParts).resolve = .ok p ∧
      p.image = [0x31, 0, 12, 0, 1, 2, 3, 4, 5, 0, 0, 0, 7, 2, 0, 0] := ⟨_, rfl, rfl⟩
  obtain ⟨p, hp, himage⟩ := hresolve
  exact ⟨p, hp, (layout_and_image_agree mixedParts).2 p hp, himage, rfl⟩

end Console16
