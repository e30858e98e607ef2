import Console16.Proofs.Asm.Language

/-!
# Console16.Proofs.Asm.Printing

Placed statements as text, and back. A statement is printed on a line of its own: the mnemonic, the
registers by their `R` names, values as literals with two digits a byte, in digits of either case.

* `Prints.says`: a printed line says its statement.
* `assemble_printed`: a printed program is assembled to its image.
-/

namespace Console16

open Text (isBlank)
open Text.Hex (ofByte ofBytes ofWord bytesOf number)

/-! ## Printed lines -/

/-- A literal with these digits, each of either case. -/
def PrintsDigits (digits w : List Char) : Prop :=
  ∃ ds, w = '0' :: 'x' :: ds ∧ ds.map Char.toLower = digits

/-- The words that operands are printed as. -/
inductive PrintsOperands : {f : Format} → Operands UInt16 f → List (List Char) → Prop where
  | bare : PrintsOperands .bare []
  | regReg (r1 r2 : Register) : PrintsOperands (.regReg r1 r2) [r1.name.toList, r2.name.toList]
  | reg (r : Register) : PrintsOperands (.reg r) [r.name.toList]
  | regImm (r : Register) {v : UInt16} {w : List Char} :
      PrintsDigits (ofWord v) w → PrintsOperands (.regImm r v) [r.name.toList, w]
  | addr {v : UInt16} {w : List Char} : PrintsDigits (ofWord v) w → PrintsOperands (.addr v) [w]
  | byte {b : UInt8} {w : List Char} : PrintsDigits (ofByte b) w → PrintsOperands (.byte b) [w]

/-- The lines that a statement is printed as. -/
inductive Prints : Stmt UInt16 → List Char → Prop where
  | instr (line : Nat) {op : Opcode} {operands : Operands UInt16 op.format}
      {ws : List (List Char)} : PrintsOperands operands ws →
      Prints (.instr line op operands) ([' '].intercalate (op.mnemonic.toList :: ws))
  | data (line : Nat) {bytes : List UInt8} {w : List Char} : bytes ≠ [] →
      PrintsDigits (ofBytes bytes) w → Prints (.data line bytes) w

/-! ## Words -/

theorem isBlank_eq_false {c : Char} (hlo : 0x20 < c.toNat) (hhi : c.toNat < 0x85) :
    isBlank c = false := by
  simp only [isBlank, Text.blankRanges, List.any_cons, List.any_nil, Bool.or_false,
    Bool.or_eq_false_iff, Bool.and_eq_false_iff, decide_eq_false_iff_not]
  omega

theorem isAlphanum_iff {c : Char} : c.isAlphanum = true ↔
    ((65 ≤ c.toNat ∧ c.toNat ≤ 90) ∨ (97 ≤ c.toNat ∧ c.toNat ≤ 122)) ∨
      (48 ≤ c.toNat ∧ c.toNat ≤ 57) := by
  change ((decide ('A'.val ≤ c.val ∧ c.val ≤ 'Z'.val) ||
    (decide ('a'.val ≤ c.val) && decide (c.val ≤ 'z'.val))) ||
    (decide ('0'.val ≤ c.val) && decide (c.val ≤ '9'.val))) = true ↔ _
  simp only [Bool.or_eq_true, Bool.and_eq_true, decide_eq_true_eq, UInt32.le_iff_toNat_le]
  exact Iff.rfl

theorem isAlphanum_of_isHexDigit {c : Char} (h : c.isHexDigit = true) : c.isAlphanum = true := by
  change ((decide ('0'.val ≤ c.val) && decide (c.val ≤ '9'.val)) ||
    (decide ('a'.val ≤ c.val) && decide (c.val ≤ 'f'.val)) ||
    (decide ('A'.val ≤ c.val) && decide (c.val ≤ 'F'.val))) = true at h
  simp only [Bool.or_eq_true, Bool.and_eq_true, decide_eq_true_eq, UInt32.le_iff_toNat_le] at h
  change ((48 ≤ c.toNat ∧ c.toNat ≤ 57) ∨ (97 ≤ c.toNat ∧ c.toNat ≤ 102)) ∨
    (65 ≤ c.toNat ∧ c.toNat ≤ 70) at h
  rw [isAlphanum_iff]
  rcases h with (h | h) | h
  · exact .inr h
  · exact .inl (.inr ⟨h.1, by omega⟩)
  · exact .inl (.inl ⟨h.1, by omega⟩)

theorem isWord_of_isAlphanum {w : List Char} (hne : w ≠ [])
    (h : ∀ c ∈ w, c.isAlphanum = true ∨ c = '_') : IsWord w := by
  refine ⟨hne, fun c hc => ?_⟩
  constructor
  · rcases h c hc with h | rfl
    · rw [isAlphanum_iff] at h
      rcases h with (h | h) | h <;> exact isBlank_eq_false (by omega) (by omega)
    · decide
  · rintro rfl
    simpa using h ';' hc

theorem IsIdentifier.isWord {w : List Char} (h : IsIdentifier w) : IsWord w := by
  cases w with
  | nil => exact absurd h id
  | cons c cs =>
    obtain ⟨hc, hcs⟩ := h
    refine isWord_of_isAlphanum (List.cons_ne_nil c cs) fun d hd => ?_
    rcases List.mem_cons.1 hd with rfl | hd
    · exact hc.imp_left fun ha => by rw [Char.isAlphanum, ha, Bool.true_or]
    · exact hcs d hd

theorem IsLiteral.isWord {w ds : List Char} (h : IsLiteral w ds) : IsWord w := by
  obtain ⟨rfl, -, hds⟩ := h
  refine isWord_of_isAlphanum (List.cons_ne_nil _ _) fun c hc => .inl ?_
  simp only [List.mem_cons] at hc
  rcases hc with rfl | rfl | hc
  · decide
  · decide
  · exact isAlphanum_of_isHexDigit (hds c hc)

/-! ## Printed literals -/

theorem PrintsDigits.isLiteral {bytes : List UInt8} {w : List Char} (hne : bytes ≠ [])
    (h : PrintsDigits (ofBytes bytes) w) :
    ∃ ds, IsLiteral w ds ∧ ds.length = 2 * bytes.length ∧ bytesOf ds = bytes ∧
      number ds = Text.Hex.bigEndian bytes := by
  obtain ⟨ds, rfl, hds⟩ := h
  have hlen := (congrArg List.length hds).trans (Text.Hex.length_ofBytes bytes)
  rw [List.length_map] at hlen
  refine ⟨ds, ⟨rfl, ?_, ?_⟩, hlen, Text.Hex.bytesOf_ofBytes hds, Text.Hex.number_ofBytes hds⟩
  · rintro rfl
    have := List.length_pos_iff.2 hne
    simp only [List.length_nil] at hlen
    omega
  · intro d hd
    exact isDigit_iff.1 ((Text.Hex.pairs_ofBytes hds).1 d hd)

theorem ofWord_eq_ofBytes (v : UInt16) : ofWord v = ofBytes [hiByte v, loByte v] := by
  have hv := v.toNat_lt
  have h1 : v.toNat / 256 / 16 = v.toNat / 4096 := by omega
  have h2 : v.toNat % 256 / 16 = v.toNat / 16 % 16 := by omega
  have h3 : v.toNat % 256 % 16 = v.toNat % 16 := by omega
  simp only [ofWord, ofBytes, ofByte, List.flatMap_cons, List.flatMap_nil, List.append_nil,
    List.cons_append, List.nil_append, toNat_hiByte, toNat_loByte, h1, h2, h3]

theorem spells_of_ofWord {v : UInt16} {w : List Char} (h : PrintsDigits (ofWord v) w) :
    Spells w (.number v) ∧ IsWord w := by
  rw [ofWord_eq_ofBytes] at h
  obtain ⟨ds, hlit, hlen, -, hnum⟩ := h.isLiteral (List.cons_ne_nil _ _)
  have hv : UInt16.ofNat (number ds) = v := by
    rw [hnum, Text.Hex.bigEndian_two]
    exact wordOf_bytes v
  rw [← hv]
  exact ⟨.number hlit (by simp [hlen]), hlit.isWord⟩

theorem isLiteral_of_ofByte {b : UInt8} {w : List Char} (h : PrintsDigits (ofByte b) w) :
    ∃ ds, IsLiteral w ds ∧ ds.length ≤ 2 ∧ UInt8.ofNat (number ds) = b := by
  have h : PrintsDigits (ofBytes [b]) w := h
  obtain ⟨ds, hlit, hlen, -, hnum⟩ := h.isLiteral (List.cons_ne_nil _ _)
  refine ⟨ds, hlit, by simp [hlen], ?_⟩
  rw [hnum, Text.Hex.bigEndian_one, UInt8.ofNat_toNat]

/-! ## What a printed line says -/

theorem isWord_name (r : Register) : IsWord r.name.toList :=
  (isName_iff.1 (isIdentifier_register r).2).isWord

theorem PrintsOperands.spells {f : Format} {o : Operands UInt16 f} {ws : List (List Char)}
    (h : PrintsOperands o ws) : SpellsOperands ws (o.map .number) ∧ ∀ w ∈ ws, IsWord w := by
  cases h with
  | bare => exact ⟨.bare, nofun⟩
  | regReg r1 r2 =>
    refine ⟨.regReg (.inr rfl) (.inr rfl), ?_⟩
    simp only [List.forall_mem_cons]
    exact ⟨isWord_name r1, isWord_name r2, nofun⟩
  | reg r =>
    refine ⟨.reg (.inr rfl), ?_⟩
    simp only [List.forall_mem_cons]
    exact ⟨isWord_name r, nofun⟩
  | regImm r hv =>
    obtain ⟨hspells, hword⟩ := spells_of_ofWord hv
    refine ⟨.regImm (.inr rfl) hspells, ?_⟩
    simp only [List.forall_mem_cons]
    exact ⟨isWord_name r, hword, nofun⟩
  | addr hv =>
    obtain ⟨hspells, hword⟩ := spells_of_ofWord hv
    refine ⟨.addr hspells, ?_⟩
    simp only [List.forall_mem_cons]
    exact ⟨hword, nofun⟩
  | byte hb =>
    obtain ⟨ds, hlit, hlen, rfl⟩ := isLiteral_of_ofByte hb
    refine ⟨.byte hlit hlen, ?_⟩
    simp only [List.forall_mem_cons]
    exact ⟨hlit.isWord, nofun⟩

/-- What a placed statement reads like. -/
def Stmt.placedReading : Stmt UInt16 → Reading
  | .instr _ op operands => .instr op (operands.map .number)
  | .data _ bytes => .data bytes

theorem Prints.says {s : Stmt UInt16} {line : List Char} (h : Prints s line) :
    Says (words line) s.placedReading ∧ '\n' ∉ line := by
  have hbreak : ∀ w : List Char, IsWord w → '\n' ∉ w := fun w hw hm =>
    absurd (hw.2 _ hm).1 (by decide)
  cases h with
  | @instr line op operands ws ho =>
    obtain ⟨hspells, hws⟩ := ho.spells
    have hall : ∀ w ∈ op.mnemonic.toList :: ws, IsWord w := by
      rw [List.forall_mem_cons]
      exact ⟨(isIdentifier_mnemonic op).isWord, hws⟩
    refine ⟨?_, notMem_intercalate (by decide) fun w hw => hbreak w (hall w hw)⟩
    rw [words_intercalate (by decide) hall]
    exact .instr hspells
  | @data n bytes _ hne hw =>
    obtain ⟨ds, hlit, -, hbytes, -⟩ := hw.isLiteral hne
    refine ⟨?_, hbreak line hlit.isWord⟩
    have hwords : words line = [line] := by
      rw [words_of_notMem fun hm => (hlit.isWord.2 _ hm).2 rfl]
      exact pieces_of_no_blank hlit.isWord.1 fun c hc => (hlit.isWord.2 c hc).1
    have hsays : Says [line] (.data [bytes].flatten) :=
      .data (List.cons_ne_nil line []) (.cons ⟨ds, hlit, hbytes.symm⟩ .nil)
    rwa [List.flatten_singleton, ← hwords] at hsays

/-! ## Printed programs -/

theorem reads_of_prints {stmts : List (Stmt UInt16)} {lines : List (List Char)}
    (h : List.Forall₂ Prints stmts lines) (hne : lines ≠ []) :
    Reads (['\n'].intercalate lines) (stmts.map Stmt.placedReading) := by
  have hlines : List.Forall₂
      (fun line s => '\n' ∉ line ∧ Says (words line) (Stmt.placedReading s)) lines stmts :=
    .flip (h.imp fun s line hs => hs.says.symm)
  obtain ⟨hbreak, hsays⟩ := (List.forall₂_and_left lines stmts).1 hlines
  rw [Reads, List.splitOn_intercalate '\n' hbreak hne, List.forall₂_map_left_iff,
    List.forall₂_map_right_iff]
  exact hsays

theorem size_placedReading (s : Stmt UInt16) : s.placedReading.size = s.byteLen := by
  cases s <;> rfl

theorem label?_placedReading (s : Stmt UInt16) : s.placedReading.label? = none := by
  cases s <;> rfl

theorem used?_placedReading (s : Stmt UInt16) : s.placedReading.used? = none := by
  cases s with
  | instr line op operands =>
    simp only [Stmt.placedReading, Reading.used?, Operands.imm?_map]
    cases operands.imm? <;> rfl
  | data line bytes => rfl

theorem map_number_eval (label : String → UInt16) {f : Format} (o : Operands UInt16 f) :
    (o.map Written.number).map (Written.eval label) = o := by
  cases o <;> rfl

theorem bytes_placedReading (label : String → UInt16) (s : Stmt UInt16) :
    s.placedReading.bytes label = s.bytes := by
  cases s with
  | instr line op operands =>
    simp only [Stmt.placedReading, Reading.bytes, Stmt.bytes, map_number_eval]
  | data line bytes => rfl

theorem wellFormed_placedReading {stmts : List (Stmt UInt16)} (hfit : imageLen stmts ≤ maxImage) :
    WellFormed (stmts.map Stmt.placedReading) := by
  have hlabel : (stmts.map Stmt.placedReading).filterMap Reading.label? = [] := by
    rw [List.filterMap_map, List.filterMap_eq_nil_iff]
    exact fun s _ => label?_placedReading s
  have hused : (stmts.map Stmt.placedReading).filterMap Reading.used? = [] := by
    rw [List.filterMap_map, List.filterMap_eq_nil_iff]
    exact fun s _ => used?_placedReading s
  have hsize : ((stmts.map Stmt.placedReading).map Reading.size).sum = imageLen stmts := by
    rw [List.map_map, imageLen]
    exact congrArg List.sum (List.map_congr_left fun s _ => size_placedReading s)
  exact {
    distinct := hlabel ▸ List.nodup_nil
    declared := fun name hname => by simp [hused] at hname
    fits := hsize ▸ hfit }

/-- A printed program is assembled to the code words of its instructions and the bytes of its data,
with zeros up to the next multiple of four. -/
theorem assemble_printed {stmts : List (Stmt UInt16)} {lines : List (List Char)}
    (h : List.Forall₂ Prints stmts lines) (hfit : imageLen stmts ≤ 65536) :
    assemble (String.ofList (['\n'].intercalate lines)) =
      .ok (stmts.flatMap fun
        | .instr _ op operands => (encode op operands).toList
        | .data _ bytes => bytes ++ List.replicate ((4 - bytes.length % 4) % 4) 0) := by
  cases h with
  | nil => decide +kernel
  | @cons s line stmts lines hs hrest =>
    have hreads := reads_of_prints (.cons hs hrest) (List.cons_ne_nil line lines)
    rw [← String.toList_ofList (l := ['\n'].intercalate (line :: lines))] at hreads
    rw [assemble_eq_of_reads hreads (wellFormed_placedReading hfit), Reading.imageOf,
      List.flatMap_map]
    refine congrArg Except.ok (List.flatMap_congr fun t _ => ?_)
    rw [bytes_placedReading]
    cases t with
    | instr n op operands => rfl
    | data n bytes => exact padded_eq bytes

/-- A word of mixed case, a row of three bytes, and a byte. -/
def mixedCaseStmts : List (Stmt UInt16) :=
  [.instr 1 .movi (.regImm ⟨2, by decide⟩ 0xBEEF), .data 2 [1, 0xAB, 3], .instr 3 .ret (.byte 7)]

def mixedCaseLines : List (List Char) :=
  ["MOVI R2 0xBEeF".toList, "0x01Ab03".toList, "RET 0x07".toList]

theorem assemble_printed_of_mixed_case :
    List.Forall₂ Prints mixedCaseStmts mixedCaseLines ∧ imageLen mixedCaseStmts ≤ 65536 ∧
      assemble (String.ofList (['\n'].intercalate mixedCaseLines)) =
        .ok [7, 2, 0xBE, 0xEF, 1, 0xAB, 3, 0, 3, 7, 0, 0] := by
  have hbeef : PrintsDigits (ofWord 0xBEEF) "0xBEeF".toList := ⟨"BEeF".toList, rfl, by decide⟩
  have hregs : PrintsOperands (.regImm 2 0xBEEF : Operands UInt16 Opcode.movi.format)
      ["R2".toList, "0xBEeF".toList] := .regImm 2 hbeef
  have hmovi : Prints (.instr 1 .movi (.regImm 2 0xBEEF)) "MOVI R2 0xBEeF".toList :=
    @Prints.instr 1 .movi _ _ hregs
  have hdata : Prints (.data 2 [1, 0xAB, 3]) "0x01Ab03".toList :=
    .data 2 (by decide) ⟨"01Ab03".toList, rfl, by decide⟩
  have hseven : PrintsOperands (.byte 7 : Operands UInt16 Opcode.ret.format) ["0x07".toList] :=
    .byte ⟨"07".toList, rfl, by decide⟩
  have hret : Prints (.instr 3 .ret (.byte 7)) "RET 0x07".toList :=
    @Prints.instr 3 .ret _ _ hseven
  have h : List.Forall₂ Prints mixedCaseStmts mixedCaseLines :=
    .cons hmovi (.cons hdata (.cons hret .nil))
  exact ⟨h, by decide, assemble_printed h (by decide)⟩

end Console16
