import Console16.Proofs.Asm.Concat
import Console16.Proofs.Asm.Printing
import Console16.Proofs.Source.Tokenizing

/-!
# Console16.Proofs.Asm.LastLine

A text in order and one line more at its end. The labels of the text keep their offsets, and the
line does to the listing what it says. A jump to a label of the text is such a line. Any identifier
can be declared, but an operand is first looked up among the mnemonics and the register names, so
that a label with one of these names can never be used.

* `mem_reservedNames`: the reserved words, as a list of names.
* `Listing.ofSource_concat`: the listing of a text with one line more.
* `assemble_concat_stmt`: a statement more, and its bytes after the image.
* `Line.item_jump`, `Line.item_jump_of_reserved`: what a jump to a name says.
* `jump_to_label_unless_reserved`: a jump to a declared label, added at the end.
-/

namespace Console16

open Text (isBlank width)

/-! ## Reserved names -/

def mnemonics : List String :=
  Opcode.all.map Opcode.mnemonic

def registerNames : List String :=
  Register.aliases.map Prod.fst

/-- The names that an operand cannot use as a label. -/
def reservedNames : List String :=
  mnemonics ++ registerNames

theorem mem_mnemonics {name : String} :
    name ∈ mnemonics ↔ ∃ op : Opcode, name.toList = op.mnemonic.toList := by
  simp only [mnemonics, List.mem_map, String.toList_inj]
  constructor
  · rintro ⟨op, -, rfl⟩
    exact ⟨op, rfl⟩
  · rintro ⟨op, rfl⟩
    exact ⟨op, op.mem_all, rfl⟩

theorem mem_registerNames {name : String} :
    name ∈ registerNames ↔ ∃ r, NamesRegister name.toList r := by
  simp only [registerNames, Register.aliases, NamesRegister, String.toList_inj, List.mem_map,
    List.mem_flatMap, List.mem_cons, List.not_mem_nil, or_false]
  constructor
  · rintro ⟨_, ⟨r, -, rfl | rfl⟩, rfl⟩
    · exact ⟨r, .inl rfl⟩
    · exact ⟨r, .inr rfl⟩
  · rintro ⟨r, rfl | rfl⟩
    · exact ⟨(r.letter, r), ⟨r, r.mem_all, .inl rfl⟩, rfl⟩
    · exact ⟨(r.name, r), ⟨r, r.mem_all, .inr rfl⟩, rfl⟩

theorem mem_reservedNames {name : String} : name ∈ reservedNames ↔ IsReserved name.toList := by
  rw [reservedNames, List.mem_append, mem_mnemonics, mem_registerNames, IsReserved]

/-! ## One line more -/

/-- The line that a row makes at the end of a text. -/
def lineAfter (source row : List Char) : Line :=
  ⟨source.count '\n' + 2, width source + 1, row⟩

theorem splitOn_eq_singleton {c : Char} {row : List Char} (h : c ∉ row) :
    row.splitOn c = [row] := by
  apply List.splitOnP_eq_singleton
  intro d hd
  rw [beq_eq_false_iff_ne]
  rintro rfl
  exact h hd

theorem sourceLines_concat (source : List Char) {row : List Char} (h : '\n' ∉ row) :
    sourceLines (source ++ '\n' :: row) = sourceLines source ++ [lineAfter source row] := by
  have hrow : sourceLines row = [⟨1, 0, row⟩] := by
    rw [sourceLines_eq, splitOn_eq_singleton h, linesFrom_cons]
    rfl
  have hnumber : 1 + (source.count '\n' + 1) = source.count '\n' + 2 := by omega
  rw [sourceLines_append, hrow, List.map_singleton, Shift.line, Shift.past, hnumber, Nat.zero_add,
    lineAfter]

namespace Listing

variable {source row : List Char} {l : Listing} {s : Stmt Target} {name : String}

theorem ofSource_concat (hl : ofSource source = .ok l) (hrow : '\n' ∉ row) :
    ofSource (source ++ '\n' :: row) = (Draft.read ⟨l, #[]⟩ (lineAfter source row)).outcome := by
  obtain ⟨hok, rfl⟩ := ofSource_eq_ok_iff.1 hl
  have hnone : (Draft.ofLines (sourceLines source)).errors = #[] :=
    Array.toList_eq_nil_iff.1 ((Draft.errors_ofLines_iff _).2 hok)
  have hsource : Draft.ofLines (sourceLines source) =
      ⟨(Draft.ofLines (sourceLines source)).listing, #[]⟩ := by rw [← hnone]
  rw [← hsource, ← Draft.ofLines_concat, ← sourceLines_concat source hrow]
  rfl

theorem ofSource_concat_stmt (hl : ofSource source = .ok l) (hrow : '\n' ∉ row)
    (hs : (lineAfter source row).item = .ok (some (.stmt s))) :
    ofSource (source ++ '\n' :: row) = .ok (l.add s) := by
  rw [ofSource_concat hl hrow, Draft.read]
  unfold Line.item at hs
  rw [hs]
  rfl

/-- An error on the last line is the only one. -/
theorem ofSource_concat_error {e : AsmError} (hl : ofSource source = .ok l) (hrow : '\n' ∉ row)
    (he : (lineAfter source row).item = .error e) :
    ofSource (source ++ '\n' :: row) = .error [e] := by
  rw [ofSource_concat hl hrow, Draft.read]
  unfold Line.item at he
  rw [he]
  rfl

theorem image_add (l : Listing) (s : Stmt Target) :
    (l.add s).image = l.image ++ (s.link l.labels).bytes := by
  simp [image, add]

theorem declared_add (hl : l.Declared)
    (hs : ∀ ref, s.ref? = some ref → l.labels.get? ref.name ≠ none) : (l.add s).Declared := by
  intro t ht
  rw [toList_stmts_add, List.mem_append, List.mem_singleton] at ht
  rcases ht with ht | rfl
  · exact hl t ht
  · exact hs

/-- A label stands for an offset of the image, or for its end. -/
theorem exists_offset (hl : ofSource source = .ok l) (hname : Declares source name) :
    ∃ offset, l.labels.get? name = some offset ∧ offset ≤ l.byteLen := by
  obtain ⟨-, rfl⟩ := ofSource_eq_ok_iff.1 hl
  obtain ⟨before, m, after, hsplit, hm, hnew, -⟩ := split_at_label (declares_iff.1 hname)
  rw [hsplit]
  refine ⟨imageLen (stmtsOf before), Draft.get?_labels_of_split hm hnew, ?_⟩
  rw [Draft.byteLen_ofLines, stmtsOf_append, imageLen_append]
  exact Nat.le_add_right ..

end Listing

/-- A statement more at the end of a text that is assembled: its bytes come after the image. -/
theorem assemble_concat_stmt {source : String} {row : List Char} {l : Listing} {s : Stmt Target}
    (hl : Listing.ofSource source.toList = .ok l) (hd : l.Declared) (hrow : '\n' ∉ row)
    (hs : (lineAfter source.toList row).item = .ok (some (.stmt s)))
    (hused : ∀ ref, s.ref? = some ref → l.labels.get? ref.name ≠ none)
    (hfit : l.byteLen + s.byteLen ≤ maxImage) :
    assemble (source ++ String.ofList ('\n' :: row)) =
      .ok (l.image ++ (s.link l.labels).bytes) := by
  rw [← Listing.image_add, assemble_ok_iff, String.toList_append, String.toList_ofList]
  exact ⟨l.add s, Listing.ofSource_concat_stmt hl hrow hs, Listing.declared_add hd hused, hfit, rfl⟩

theorem assemble_eq_error {source : String} {errors : List AsmError}
    (h : Listing.ofSource source.toList = .error errors) : assemble source = .error errors := by
  rw [assemble, programOf, h]
  rfl

/-! ## Two words on a line -/

theorem wordsAt_pair (offset : Nat) {v w : List Char} (hv : IsWord v) (hw : IsWord w) :
    wordsAt offset (v ++ ' ' :: w) = [⟨offset, v⟩, ⟨offset + (width v + 1), w⟩] := by
  have hblank : isBlank ' ' = true := by decide
  have hlast : Scans (offset + (width v + 1)) (w ++ []) [⟨offset + (width v + 1), w⟩] :=
    .word hw nofun .finish
  rw [List.append_nil] at hlast
  have hgap : EndsWord (' ' :: w) := by
    intro c hc
    obtain rfl : ' ' = c := by simpa using hc
    exact .inl hblank
  exact (scans_iff.1 (.word hv hgap (.blank hblank hlast))).symm

/-! ## Jumps -/

def jumpRow (name : String) : List Char :=
  Opcode.jmpi.mnemonic.toList ++ ' ' :: name.toList

theorem feed_notMem_jumpRow {name : String} (h : IsWord name.toList) : '\n' ∉ jumpRow name := by
  simp only [jumpRow, List.mem_append, List.mem_cons, not_or]
  refine ⟨by decide, by decide, fun hm => ?_⟩
  exact absurd (h.2 '\n' hm).1 (by decide)

theorem width_jumpRow (name : String) : width (jumpRow name) = 5 + width name.toList := by
  have hmnemonic : width Opcode.jmpi.mnemonic.toList = 4 := by decide
  have hspace : ' '.utf8Size = 1 := by decide
  rw [jumpRow, Text.width_append, Text.width_cons, hmnemonic, hspace]
  omega

namespace Token

variable {w : Word}

theorem target?_of_isLabelName (h : IsLabelName w.text) (line : Nat) :
    (ofWord w).target? line = some (.ok (.label ⟨String.ofList w.text, line, w.span⟩)) := by
  simp only [target?, ofWord, TokenKind.ofWord_reference h]

/-- A reserved word is an opcode or a register, wherever it stands. -/
theorem target?_of_isReserved (h : IsReserved w.text) (line : Nat) :
    (ofWord w).target? line = none := by
  rcases h with ⟨op, hop⟩ | ⟨r, hr⟩
  · simp only [target?, ofWord, hop, TokenKind.ofWord_mnemonic]
  · simp only [target?, ofWord, TokenKind.ofWord_register hr]

end Token

namespace Line

variable {l : Line} {name : String}

theorem tokens_jumpRow (hname : IsWord name.toList) (hl : l.text = jumpRow name) :
    l.tokens = [Token.ofWord ⟨l.offset, Opcode.jmpi.mnemonic.toList⟩,
      Token.ofWord ⟨l.offset + 5, name.toList⟩] := by
  have hjmpi : IsWord Opcode.jmpi.mnemonic.toList := (isIdentifier_mnemonic .jmpi).isWord
  rw [tokens_eq, tokensAt, hl, jumpRow, wordsAt_pair l.offset hjmpi hname]
  rfl

theorem spanOf_jumpRow (offset : Nat) (name : String) :
    spanOf (Token.ofWord ⟨offset, Opcode.jmpi.mnemonic.toList⟩)
      [Token.ofWord ⟨offset + 5, name.toList⟩] = ⟨offset, width (jumpRow name)⟩ := by
  -- from the first byte of the mnemonic to the last of the name
  have hlength : offset + 5 + width name.toList - offset = 5 + width name.toList := by omega
  rw [width_jumpRow, ← hlength]
  rfl

/-- A jump is an instruction if its word can be an operand. -/
theorem item_jumpRow (hname : IsWord name.toList) (hl : l.text = jumpRow name) :
    l.item =
      match (Token.ofWord ⟨l.offset + 5, name.toList⟩).target? l.number with
      | some (.ok t) => .ok (some (.stmt (.instr l.number .jmpi (.addr t))))
      | some (.error e) => .error e
      | none =>
        .error (.located (.invalidSyntax .jmpi) l.number ⟨l.offset, width (jumpRow name)⟩) := by
  have hkind : (Token.ofWord ⟨l.offset, Opcode.jmpi.mnemonic.toList⟩).kind = .opcode .jmpi :=
    TokenKind.ofWord_mnemonic .jmpi
  rw [item, tokens_jumpRow hname hl, ← spanOf_jumpRow]
  generalize Token.ofWord ⟨l.offset, Opcode.jmpi.mnemonic.toList⟩ = first at hkind ⊢
  generalize Token.ofWord ⟨l.offset + 5, name.toList⟩ = second
  have hoperands : operands? l.number Opcode.jmpi.format [second] =
      (second.target? l.number).map fun imm => imm.map .addr := rfl
  simp only [Item.ofTokens, hkind, instruction, hoperands]
  rcases second.target? l.number with _ | e | t <;> rfl

theorem item_jump (hname : IsLabelName name.toList) (hl : l.text = jumpRow name) :
    ∃ ref : LabelRef, ref.name = name ∧
      l.item = .ok (some (.stmt (.instr l.number .jmpi (.addr (.label ref))))) := by
  have h := item_jumpRow hname.1.isWord hl
  rw [Token.target?_of_isLabelName hname] at h
  exact ⟨_, String.ofList_toList, h⟩

theorem item_jump_of_reserved (hname : IsReserved name.toList) (hl : l.text = jumpRow name) :
    l.item =
      .error (.located (.invalidSyntax .jmpi) l.number ⟨l.offset, width (jumpRow name)⟩) := by
  rw [item_jumpRow hname.isIdentifier.isWord hl, Token.target?_of_isReserved hname]

end Line

theorem Declares.isIdentifier {source : List Char} {name : String} (h : Declares source name) :
    IsIdentifier name.toList := by
  obtain ⟨row, -, hsays⟩ := h
  generalize words row = ws at hsays
  cases hsays
  assumption

theorem bytes_jump {labels : LabelTable} {line offset : Nat} {ref : LabelRef}
    (h : labels.get? ref.name = some offset) (hlt : offset < 65536) :
    ((Stmt.instr line .jmpi (.addr (.label ref)) : Stmt Target).link labels).bytes =
      [0x31, UInt8.ofNat (offset / 256), UInt8.ofNat (offset % 256), 0] := by
  have hval : (UInt16.ofNat offset).toNat = offset := UInt16.toNat_ofNat_of_lt hlt
  have hhi : hiByte (UInt16.ofNat offset) = UInt8.ofNat (offset / 256) := by
    rw [← UInt8.ofNat_toNat (x := hiByte _), toNat_hiByte, hval]
  have hlo : loByte (UInt16.ofNat offset) = UInt8.ofNat (offset % 256) := by
    rw [← UInt8.ofNat_toNat (x := loByte _), toNat_loByte, hval]
  rw [← hhi, ← hlo]
  change (encode .jmpi (.addr (UInt16.ofNat ((labels.get? ref.name).getD 0)))).toList = _
  rw [h]
  rfl

section
variable {source : String} {l : Listing} {name : String} {offset : Nat}

theorem assemble_jump (hl : Listing.ofSource source.toList = .ok l) (hd : l.Declared)
    (hname : IsLabelName name.toList) (hget : l.labels.get? name = some offset)
    (hlt : offset < 65536) (hfit : l.byteLen + codeWordSize ≤ maxImage) :
    assemble (source ++ String.ofList ('\n' :: jumpRow name)) =
      .ok (l.image ++ [0x31, UInt8.ofNat (offset / 256), UInt8.ofNat (offset % 256), 0]) := by
  obtain ⟨ref, rfl, hitem⟩ :=
    Line.item_jump (l := lineAfter source.toList (jumpRow name)) hname rfl
  have hused : ∀ r, (Stmt.instr (lineAfter source.toList (jumpRow ref.name)).number .jmpi
      (.addr (.label ref))).ref? = some r → l.labels.get? r.name ≠ none := by
    intro r hr
    obtain rfl : ref = r := Option.some.inj hr
    simp [hget]
  rw [← bytes_jump hget hlt]
  exact assemble_concat_stmt hl hd (feed_notMem_jumpRow hname.1.isWord) hitem hused hfit

theorem assemble_jump_of_reserved (hl : Listing.ofSource source.toList = .ok l)
    (hname : IsReserved name.toList) :
    assemble (source ++ String.ofList ('\n' :: jumpRow name)) =
      .error [.located (.invalidSyntax .jmpi) (source.toList.count '\n' + 2)
        ⟨source.utf8ByteSize + 1, 5 + name.utf8ByteSize⟩] := by
  have hwidth : ∀ s : String, s.utf8ByteSize = width s.toList := by
    intro s
    rw [← Text.utf8ByteSize_ofList, String.ofList_toList]
  rw [hwidth, hwidth, ← width_jumpRow]
  apply assemble_eq_error
  rw [String.toList_append, String.toList_ofList]
  apply Listing.ofSource_concat_error hl (feed_notMem_jumpRow hname.isIdentifier.isWord)
  exact Line.item_jump_of_reserved hname rfl

end

/-- A jump to a declared label can be added at the end of a text, unless the label has the name of
an opcode or of a register. Then the jump is the one thing that is wrong with the text. -/
theorem jump_to_label_unless_reserved {source : String} {image : List UInt8} {name : String}
    (h : assemble source = .ok image) (hfit : image.length ≤ 65532)
    (hname : Declares source.toList name) :
    ∃ l offset, Listing.ofSource source.toList = .ok l ∧ l.labels.get? name = some offset ∧
      offset ≤ image.length ∧
      (name ∉ mnemonics ∧ name ∉ registerNames →
        assemble (source ++ "\nJMPI " ++ name) =
          .ok (image ++ [0x31, UInt8.ofNat (offset / 256), UInt8.ofNat (offset % 256), 0])) ∧
      (name ∈ mnemonics ∨ name ∈ registerNames →
        assemble (source ++ "\nJMPI " ++ name) =
          .error [.located (.invalidSyntax .jmpi) (source.toList.count '\n' + 2)
            ⟨source.utf8ByteSize + 1, 5 + name.utf8ByteSize⟩]) := by
  obtain ⟨l, hl, hd, rfl, hbytes, -⟩ := Listing.length_of_assemble h
  obtain ⟨offset, hget, hle⟩ := Listing.exists_offset hl hname
  have htext : source ++ "\nJMPI " ++ name = source ++ String.ofList ('\n' :: jumpRow name) := by
    apply String.toList_inj.1
    simp [jumpRow, Opcode.mnemonic]
  rw [htext, ← not_or, ← List.mem_append]
  refine ⟨l, offset, hl, hget, hbytes ▸ hle, fun hfree => ?_, fun hreserved => ?_⟩
  · -- what is declared is an identifier, so only the reserved names are left out
    have hlabel : IsLabelName name.toList :=
      ⟨hname.isIdentifier, fun hr => hfree (mem_reservedNames.2 hr)⟩
    exact assemble_jump hl hd hlabel hget (by omega) (by simp only [codeWordSize, maxImage]; omega)
  · exact assemble_jump_of_reserved hl (mem_reservedNames.1 hreserved)

theorem jump_to_label_unless_reserved_of_loop_and_sp :
    assemble "SP:\nNOP\nloop: ; é" = .ok [0, 0, 0, 0] ∧
      ([0, 0, 0, 0] : List UInt8).length ≤ 65532 ∧
      Declares "SP:\nNOP\nloop: ; é".toList "loop" ∧
      Declares "SP:\nNOP\nloop: ; é".toList "SP" ∧
      assemble ("SP:\nNOP\nloop: ; é" ++ "\nJMPI " ++ "loop") =
        .ok ([0, 0, 0, 0] ++ [0x31, 0, 4, 0]) ∧
      assemble ("SP:\nNOP\nloop: ; é" ++ "\nJMPI " ++ "SP") =
        .error [.located (.invalidSyntax .jmpi) 4 ⟨19, 7⟩] := by
  have h : assemble "SP:\nNOP\nloop: ; é" = .ok [0, 0, 0, 0] := by decide +kernel
  have hlabels : labelsOf (sourceLines "SP:\nNOP\nloop: ; é".toList) = ["SP", "loop"] := by
    decide +kernel
  have hloop : Declares "SP:\nNOP\nloop: ; é".toList "loop" := by
    rw [declares_iff, hlabels]
    decide
  have hsp : Declares "SP:\nNOP\nloop: ; é".toList "SP" := by
    rw [declares_iff, hlabels]
    decide
  obtain ⟨l, offset, hl, hget, -, hfree, -⟩ :=
    jump_to_label_unless_reserved h (by decide) hloop
  obtain ⟨-, -, -, -, -, -, hreserved⟩ := jump_to_label_unless_reserved h (by decide) hsp
  have hlisting : (Listing.ofSource "SP:\nNOP\nloop: ; é".toList).toOption.bind
      (fun l => l.labels.get? "loop") = some 4 := by decide +kernel
  rw [hl] at hlisting
  obtain rfl : offset = 4 := Option.some.inj (hget.symm.trans hlisting)
  exact ⟨h, by decide, hloop, hsp, hfree (by decide), hreserved (by decide)⟩

end Console16
