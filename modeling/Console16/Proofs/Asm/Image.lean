import Console16.Isa.Instr
import Console16.Proofs.Asm.Language
import Console16.Proofs.Machine.Loaded

/-!
# Console16.Proofs.Asm.Image

The image of a text in memory. Each statement lies at the bytes before it, with the values of its
labels in place; what is fetched there decodes to the instruction that is written, and data reads
back byte by byte with its zeros.

* `Listing.fetch_stmt`: what is fetched inside a statement, from any memory that holds the image.
* `Listing.label_of_says`: a label has the value that its place in the text gives it.
* `assemble_in_memory`: the image of a text, loaded, holds what the text says.
-/

namespace Console16

/-! ## Lines of statements -/

theorem Item.line_of_ofTokens {line : Nat} {toks : List Token} {s : Stmt Target}
    (h : ofTokens line toks = .ok (some (.stmt s))) : s.line = line := by
  obtain ⟨-, he⟩ | ⟨_, _, _, _, -, -, -, he⟩ | ⟨-, -, he⟩ | ⟨_, _, -, -, he⟩ := ofTokens_cases h
  · cases he
  · cases he
    rfl
  · cases he
    rfl
  · cases he

namespace Line

theorem stmt?_eq_some_iff {l : Line} {s : Stmt Target} :
    l.stmt? = some s ↔ l.item = .ok (some (.stmt s)) := by
  unfold stmt?
  split
  · rename_i u hu
    simp [hu]
  · rename_i hne
    simp only [reduceCtorEq, false_iff]
    exact hne s

theorem line_of_stmt? {l : Line} {s : Stmt Target} (h : l.stmt? = some s) : s.line = l.number :=
  Item.line_of_ofTokens (stmt?_eq_some_iff.1 h)

theorem says_of_stmt? {l : Line} {s : Stmt Target} (h : l.stmt? = some s) :
    Says (words l.text) s.reading :=
  taken_iff.1 ⟨_, stmt?_eq_some_iff.1 h, rfl⟩

theorem label?_eq_some_iff {l : Line} {name : String} :
    l.label? = some name ↔ Says (words l.text) (.label name) := by
  rw [← taken_iff]
  constructor
  · intro h
    unfold label? at h
    split at h
    · rename_i n span hit
      cases h
      exact ⟨_, hit, rfl⟩
    · cases h
  · intro h
    exact h.label?

end Line

/-! ## The image of a listing -/

namespace Listing

variable {l : Listing} {m : Memory} {before after : List (Stmt Target)} {s : Stmt Target} {i : Nat}

/-- The value of a name: the offset it is declared at, modulo the size of memory. -/
def label (l : Listing) (name : String) : UInt16 :=
  UInt16.ofNat ((l.labels.get? name).getD 0)

/-- The bytes of the statements on the lines before one. -/
def bytesBefore (l : Listing) (line : Nat) : Nat :=
  imageLen (l.stmts.toList.filter fun s => s.line < line)

theorem mem_of_split (h : l.stmts.toList = before ++ s :: after) : s ∈ l.stmts.toList := by
  rw [h]
  exact List.mem_append_right before List.mem_cons_self

theorem end_le_length (h : l.stmts.toList = before ++ s :: after) :
    imageLen before + s.byteLen ≤ l.image.length := by
  rw [length_image, h, imageLen_append, imageLen_cons]
  omega

theorem read_stmt (hm : m.Holds l.image.length l.image) (hfit : l.image.length ≤ memorySize)
    (h : l.stmts.toList = before ++ s :: after) (hi : i < s.byteLen) :
    m.read (UInt16.ofNat (imageLen before + i)) = (s.link l.labels).bytes.getD i 0 := by
  have hend := end_le_length h
  obtain ⟨pre, post, himage, hpre⟩ := image_split h
  rw [hm.read_ofNat hfit (by omega), himage, ← hpre]
  exact getD_append_middle pre _ post (by rwa [Stmt.length_bytes, Stmt.byteLen_link])

theorem fetch_stmt (hm : m.Holds l.image.length l.image) (hfit : l.image.length ≤ memorySize)
    (h : l.stmts.toList = before ++ s :: after) (hi : i + codeWordSize ≤ s.byteLen) :
    m.fetch (UInt16.ofNat (imageLen before + i)) = codeWordAt (s.link l.labels).bytes i := by
  have hend := end_le_length h
  obtain ⟨pre, post, himage, hpre⟩ := image_split h
  rw [hm.fetch hfit (by omega), himage, ← hpre]
  exact codeWordAt_append_middle pre _ post (by rwa [Stmt.length_bytes, Stmt.byteLen_link])

theorem map_link (l : Listing) {f : Format} (o : Operands Target f) :
    o.map (·.link l.labels) = (o.map Target.written).map (Written.eval l.label) := by
  rw [Operands.map_map]
  apply Operands.map_congr
  intro t _
  cases t <;> rfl

theorem decode_fetch_instr (hm : m.Holds l.image.length l.image)
    (hfit : l.image.length ≤ memorySize) {line : Nat} {op : Opcode}
    {operands : Operands Target op.format}
    (h : l.stmts.toList = before ++ .instr line op operands :: after) :
    Instr.decode (m.fetch (UInt16.ofNat (imageLen before))) =
      .of op ((operands.map Target.written).map (Written.eval l.label)) := by
  have hf := fetch_stmt (i := 0) hm hfit h (Nat.le_refl _)
  rw [Nat.add_zero] at hf
  rw [hf, Stmt.link, Stmt.bytes, codeWordAt_toList, Instr.decode_encode, map_link]

end Listing

theorem getD_padded (bs : List UInt8) (i : Nat) : (padded bs).getD i 0 = bs.getD i 0 := by
  unfold padded
  by_cases hi : i < bs.length
  · rw [List.getD_append _ _ _ _ hi]
  · rw [List.getD_append_right _ _ _ _ (Nat.le_of_not_lt hi),
      List.getD_eq_default bs 0 (Nat.le_of_not_lt hi)]
    rcases Nat.lt_or_ge (i - bs.length) (alignUp bs.length - bs.length) with h | h
    · rw [List.getD_replicate _ h]
    · rw [List.getD_eq_default _ _ (by simpa using h)]

/-! ## The values of labels -/

theorem filter_stmtsOf_lt {lines : List Line} {n : Nat} (h : ∀ l ∈ lines, l.number < n) :
    (stmtsOf lines).filter (fun s => s.line < n) = stmtsOf lines := by
  rw [List.filter_eq_self]
  intro s hs
  obtain ⟨l, hl, hstmt⟩ := List.mem_filterMap.1 hs
  rw [Line.line_of_stmt? hstmt]
  exact decide_eq_true (h l hl)

theorem filter_stmtsOf_ge {lines : List Line} {n : Nat} (h : ∀ l ∈ lines, n ≤ l.number) :
    (stmtsOf lines).filter (fun s => s.line < n) = [] := by
  rw [List.filter_eq_nil_iff]
  intro s hs
  obtain ⟨l, hl, hstmt⟩ := List.mem_filterMap.1 hs
  rw [Line.line_of_stmt? hstmt]
  have := h l hl
  simpa using this

theorem filter_stmtsOf_before {before after : List Line} {l : Line}
    (h : (before ++ l :: after).Pairwise fun a b => a.number < b.number) :
    (stmtsOf (before ++ l :: after)).filter (fun s => s.line < l.number) = stmtsOf before := by
  obtain ⟨-, hafter, hbefore⟩ := List.pairwise_append.1 h
  have hge : ∀ k ∈ l :: after, l.number ≤ k.number := by
    intro k hk
    rcases List.mem_cons.1 hk with rfl | hk
    · exact Nat.le_refl _
    · exact Nat.le_of_lt ((List.pairwise_cons.1 hafter).1 k hk)
  rw [stmtsOf_append, List.filter_append, filter_stmtsOf_ge hge, List.append_nil,
    filter_stmtsOf_lt fun k hk => hbefore k hk l List.mem_cons_self]

theorem Listing.label_of_says {source : List Char} {l : Listing} (hl : ofSource source = .ok l)
    {line : Line} (hm : line ∈ sourceLines source) {name : String}
    (hs : Says (words line.text) (.label name)) :
    l.label name = UInt16.ofNat (l.bytesBefore line.number) := by
  obtain ⟨⟨-, hnd⟩, rfl⟩ := ofSource_eq_ok_iff.1 hl
  have hlabel := Line.label?_eq_some_iff.2 hs
  have hpw := pairwise_number_sourceLines source
  obtain ⟨before, after, hsplit⟩ := List.append_of_mem hm
  rw [hsplit] at hnd hpw ⊢
  have hnew : name ∉ labelsOf before := by
    intro hin
    rw [labelsOf_append, List.nodup_append] at hnd
    have hin' : name ∈ labelsOf (line :: after) := by
      rw [labelsOf, List.mem_filterMap]
      exact ⟨line, List.mem_cons_self, hlabel⟩
    exact hnd.2.2 name hin name hin' rfl
  rw [label, Draft.get?_labels_of_split hlabel hnew, bytesBefore, Draft.stmts_ofLines,
    filter_stmtsOf_before hpw]
  rfl

/-! ## What memory holds -/

/-- Memory holds a statement at an offset, given the values of the labels: what is fetched there
decodes to the instruction, or the bytes of the data are there with zeros to the next multiple of
four. -/
def Stmt.InMemory (memory : Memory) (label : String → UInt16) (offset : Nat) : Stmt Target → Prop
  | .instr _ op operands =>
    Instr.decode (memory.fetch (UInt16.ofNat offset)) =
      .of op ((operands.map Target.written).map (Written.eval label))
  | .data _ bytes =>
    ∀ i < alignUp bytes.length, memory.read (UInt16.ofNat (offset + i)) = bytes.getD i 0

theorem Listing.inMemory {l : Listing} {m : Memory} (hm : m.Holds l.image.length l.image)
    (hfit : l.image.length ≤ memorySize) {before after : List (Stmt Target)} {s : Stmt Target}
    (h : l.stmts.toList = before ++ s :: after) : s.InMemory m l.label (imageLen before) := by
  cases s with
  | instr line op operands => exact decode_fetch_instr hm hfit h
  | data line bytes =>
    intro i hi
    rw [read_stmt hm hfit h hi]
    exact getD_padded bytes i

/-- Memory holds a text: each of its statements with what stands on its line, the values of the
labels given by their places in the text, and nothing after them. -/
structure Listing.InMemory (l : Listing) (source : List Char) (memory : Memory)
    (label : String → UInt16) : Prop where
  written : ∀ s ∈ l.stmts.toList, ∃ line ∈ sourceLines source,
    line.number = s.line ∧ Says (words line.text) s.reading
  declared : ∀ s ∈ l.stmts.toList, ∀ ref, s.ref? = some ref → ∃ line ∈ sourceLines source,
    Says (words line.text) (.label ref.name)
  label_eq : ∀ line ∈ sourceLines source, ∀ name, Says (words line.text) (.label name) →
    label name = UInt16.ofNat (l.bytesBefore line.number)
  placed : ∀ before s after, l.stmts.toList = before ++ s :: after →
    s.InMemory memory label (imageLen before)
  zero : ∀ a : UInt16, l.byteLen ≤ a.toNat → memory.read a = 0

theorem Listing.written_of_ofSource {source : List Char} {l : Listing}
    (hl : ofSource source = .ok l) {s : Stmt Target} (hs : s ∈ l.stmts.toList) :
    ∃ line ∈ sourceLines source, line.number = s.line ∧ Says (words line.text) s.reading := by
  obtain ⟨-, rfl⟩ := ofSource_eq_ok_iff.1 hl
  rw [Draft.stmts_ofLines] at hs
  obtain ⟨line, hline, hstmt⟩ := List.mem_filterMap.1 hs
  exact ⟨line, hline, (Line.line_of_stmt? hstmt).symm, Line.says_of_stmt? hstmt⟩

theorem Listing.declared_of_ofSource {source : List Char} {l : Listing}
    (hl : ofSource source = .ok l) {name : String} (hn : l.labels.get? name ≠ none) :
    ∃ line ∈ sourceLines source, Says (words line.text) (.label name) := by
  obtain ⟨-, rfl⟩ := ofSource_eq_ok_iff.1 hl
  rw [ne_eq, Draft.get?_labels_eq_none_iff, not_not] at hn
  obtain ⟨line, hline, hlabel⟩ := List.mem_filterMap.1 hn
  exact ⟨line, hline, Line.label?_eq_some_iff.1 hlabel⟩

theorem Listing.length_of_assemble {source : String} {image : List UInt8}
    (h : assemble source = .ok image) :
    ∃ l, ofSource source.toList = .ok l ∧ l.Declared ∧ image = l.image ∧
      l.image.length = l.byteLen ∧ l.image.length ≤ memorySize := by
  obtain ⟨l, hl, hd, hlen, rfl⟩ := assemble_ok_iff.1 h
  have hbytes : l.image.length = l.byteLen := by
    obtain ⟨-, rfl⟩ := ofSource_eq_ok_iff.1 hl
    rw [length_image, Draft.byteLen_ofLines, Draft.stmts_ofLines]
  exact ⟨l, hl, hd, rfl, hbytes, hbytes ▸ hlen⟩

/-- The image of a text, loaded, holds the text. -/
theorem assemble_in_memory {source : String} {image : List UInt8}
    (h : assemble source = .ok image) :
    ∃ l memory label, Listing.ofSource source.toList = .ok l ∧ Memory.load image = .ok memory ∧
      image.length = l.byteLen ∧ 4 ∣ image.length ∧ image.length ≤ 65536 ∧
      l.InMemory source.toList memory label := by
  obtain ⟨l, hl, hd, rfl, hbytes, hfit⟩ := Listing.length_of_assemble h
  obtain ⟨memory, hload, hholds⟩ := Memory.exists_load hfit
  refine ⟨l, memory, l.label, hl, hload, hbytes, ?_, hfit, ?_⟩
  · rw [Listing.length_image]
    exact imageLen_dvd l.stmts.toList
  · exact {
      written := fun s hs => Listing.written_of_ofSource hl hs
      declared := fun s hs ref href => Listing.declared_of_ofSource hl (hd s hs ref href)
      label_eq := fun line hline name hs => Listing.label_of_says hl hline hs
      placed := fun before s after hsplit => Listing.inMemory (hholds.mono hfit) hfit hsplit
      zero := fun a ha => by
        rw [Memory.read_load hload, List.getD_eq_default _ _ (by omega)] }

theorem assemble_in_memory_of_loop :
    assemble "start:\nJMPI end\n0x12345\nMOVI A start\nend:\n" =
        .ok [0x31, 0, 12, 0, 1, 0x23, 0x45, 0, 7, 2, 0, 0] ∧
      ∃ l memory label,
        Listing.ofSource "start:\nJMPI end\n0x12345\nMOVI A start\nend:\n".toList = .ok l ∧
        Memory.load [0x31, 0, 12, 0, 1, 0x23, 0x45, 0, 7, 2, 0, 0] = .ok memory ∧
        12 = l.byteLen ∧ 4 ∣ 12 ∧ 12 ≤ 65536 ∧
        l.InMemory "start:\nJMPI end\n0x12345\nMOVI A start\nend:\n".toList memory label := by
  have h : assemble "start:\nJMPI end\n0x12345\nMOVI A start\nend:\n" =
      .ok [0x31, 0, 12, 0, 1, 0x23, 0x45, 0, 7, 2, 0, 0] := by decide +kernel
  exact ⟨h, assemble_in_memory h⟩

end Console16
