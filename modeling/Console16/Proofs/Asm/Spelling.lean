import Console16.Proofs.Asm.Outline
import Console16.Proofs.Asm.Printing
import Mathlib.Logic.Relation

/-!
# Console16.Proofs.Asm.Spelling

What does not matter in a text. A text is assembled from the classes of its words, row by row, and
rows without words count for nothing: where words stand and how they are written is kept for the
messages and decides nothing. So comments, blanks and blank lines come and go, a register goes by
either of its names, a digit by either of its cases, and an odd row of digits gets a leading zero,
without a change of the image.

* `kinds_of_rowEdit`: one change of spelling in a row keeps the classes of its words.
* `kindRows_of_respelled`: so does any chain of changes in a text.
* `only_kinds_matter`: texts with the same classes have the same image or the same kinds of errors.
-/

namespace Console16

open Text (isBlank Hex.value Hex.pack)

/-- The classes of the words of a text, for each line with words. -/
def kindRows (source : List Char) : List (List TokenKind) :=
  ((sourceLines source).map fun l => l.tokens.map Token.kind).filter fun kinds => kinds ≠ []

/-- Two ways to write one word. -/
inductive SameWord : List Char → List Char → Prop where
  | register {v w : List Char} {r : Register} : NamesRegister v r → NamesRegister w r → SameWord v w
  | digitCase {v w ds es : List Char} : IsLiteral v ds → IsLiteral w es →
      ds.map Char.toLower = es.map Char.toLower → SameWord v w
  | leadingZero {v w ds : List Char} : IsLiteral v ds → IsLiteral w ('0' :: ds) →
      ds.length % 2 = 1 → SameWord v w

/-- One change to a row: a comment, blanks at an end, a gap of other blanks, or a word rewritten. -/
inductive RowEdit : List Char → List Char → Prop where
  | comment (row text : List Char) : RowEdit row (row ++ ';' :: text)
  | leading {blanks : List Char} (row : List Char) : (∀ c ∈ blanks, isBlank c = true) →
      RowEdit row (blanks ++ row)
  | trailing {blanks : List Char} (row : List Char) : (∀ c ∈ blanks, isBlank c = true) →
      RowEdit row (row ++ blanks)
  | gap {blanks others : List Char} (before after : List Char) :
      blanks ≠ [] → (∀ c ∈ blanks, isBlank c = true) →
      others ≠ [] → (∀ c ∈ others, isBlank c = true) →
      RowEdit (before ++ blanks ++ after) (before ++ others ++ after)
  | word {before after v w : List Char} : SameWord v w →
      (∀ c ∈ before.getLast?, isBlank c = true) →
      (∀ c ∈ after.head?, isBlank c = true ∨ c = ';') →
      RowEdit (before ++ v ++ after) (before ++ w ++ after)

/-- One change to the rows of a text: one row is edited, or a blank row is put in. -/
inductive TextEdit : List (List Char) → List (List Char) → Prop where
  | row {row edited : List Char} (above below : List (List Char)) : RowEdit row edited →
      TextEdit (above ++ row :: below) (above ++ edited :: below)
  | blankRow {row : List Char} (above below : List (List Char)) :
      (∀ c ∈ row, isBlank c = true) → TextEdit (above ++ below) (above ++ row :: below)

/-- One text can be made the other by changes of spelling, made or undone. -/
def Respelled (source other : List Char) : Prop :=
  Relation.EqvGen TextEdit (source.splitOn '\n') (other.splitOn '\n')

/-! ## Words -/

theorem NamesRegister.isWord {w : List Char} {r : Register} (h : NamesRegister w r) : IsWord w :=
  (IsReserved.isIdentifier (.inr ⟨r, h⟩)).isWord

theorem map_value_toLower {ds es : List Char} (h : ds.map Char.toLower = es.map Char.toLower) :
    ds.map Hex.value = es.map Hex.value := by
  have hvalue : Hex.value ∘ Char.toLower = Hex.value := by
    funext c
    simp [Text.Hex.value, Text.Hex.digit?_toLower]
  rw [← hvalue, ← List.map_map, h, List.map_map]

namespace SameWord

variable {v w : List Char}

theorem isWord (h : SameWord v w) : IsWord v ∧ IsWord w := by
  cases h with
  | register hv hw => exact ⟨hv.isWord, hw.isWord⟩
  | digitCase hv hw => exact ⟨hv.isWord, hw.isWord⟩
  | leadingZero hv hw => exact ⟨hv.isWord, hw.isWord⟩

theorem ofWord_eq (h : SameWord v w) : TokenKind.ofWord v = TokenKind.ofWord w := by
  cases h with
  | register hv hw => rw [TokenKind.ofWord_register hv, TokenKind.ofWord_register hw]
  | digitCase hv hw hcase =>
    rw [TokenKind.ofWord_literal hv, TokenKind.ofWord_literal hw, map_value_toLower hcase]
  | leadingZero hv hw hodd =>
    rw [TokenKind.ofWord_literal hv, TokenKind.ofWord_literal hw, Text.Hex.pack_eq_bytesOf,
      Text.Hex.pack_eq_bytesOf, Text.Hex.bytesOf_cons_zero hodd]

end SameWord

/-! ## Rows -/

section
variable {before after : List Char}

theorem codePart_append (h : ';' ∉ before) (after : List Char) :
    codePart (before ++ after) = before ++ codePart after := by
  apply List.takeWhile_append_of_pos
  intro c hc
  exact bne_iff_ne.2 fun he => h (he ▸ hc)

/-- What follows a semicolon is a comment. -/
theorem words_append_of_mem (h : ';' ∈ before) (after : List Char) :
    words (before ++ after) = words before := by
  rcases line_eq before with hcode | ⟨comment, hcode⟩
  · rw [hcode] at h
    exact absurd h (semicolon_notMem_codePart before)
  · have hsemi := semicolon_notMem_codePart before
    rw [words, words, hcode, List.append_assoc, List.cons_append, codePart_append_comment hsemi,
      codePart_append_comment hsemi]

theorem words_comment (row text : List Char) : words (row ++ ';' :: text) = words row := by
  by_cases h : ';' ∈ row
  · exact words_append_of_mem h _
  · rw [words, words, codePart_append_comment h, codePart_eq_self h]

theorem semicolon_notMem_blanks {blanks : List Char} (h : ∀ c ∈ blanks, isBlank c = true) :
    ';' ∉ blanks := fun hc => absurd (h ';' hc) (by decide)

theorem words_leading {blanks : List Char} (h : ∀ c ∈ blanks, isBlank c = true)
    (row : List Char) : words (blanks ++ row) = words row := by
  rw [words, codePart_append (semicolon_notMem_blanks h), pieces_blanks_append h, words]

/-- A gap cuts the code of a row in two. -/
theorem words_gap (hsemi : ';' ∉ before) {blanks : List Char} (hne : blanks ≠ [])
    (h : ∀ c ∈ blanks, isBlank c = true) (after : List Char) :
    words (before ++ blanks ++ after) = pieces before ++ words after := by
  obtain ⟨b, rest, rfl⟩ := List.exists_cons_of_ne_nil hne
  have hrest : ∀ c ∈ rest, isBlank c = true := fun c hc => h c (List.mem_cons_of_mem b hc)
  rw [words, List.append_assoc, codePart_append hsemi, codePart_append (semicolon_notMem_blanks h),
    List.cons_append, pieces_append_blank (h b List.mem_cons_self), pieces_blanks_append hrest,
    words]

theorem words_trailing {blanks : List Char} (h : ∀ c ∈ blanks, isBlank c = true)
    (row : List Char) : words (row ++ blanks) = words row := by
  by_cases hsemi : ';' ∈ row
  · exact words_append_of_mem hsemi blanks
  · by_cases hne : blanks = []
    · rw [hne, List.append_nil]
    · have hgap := words_gap hsemi hne h []
      rw [List.append_nil] at hgap
      rw [hgap, words_of_notMem hsemi]
      exact List.append_nil _

/-- A word with blanks or the ends of the code around it is a word of the row. -/
theorem words_word (hsemi : ';' ∉ before) (hbefore : ∀ c ∈ before.getLast?, isBlank c = true)
    {w : List Char} (hw : IsWord w) (hafter : ∀ c ∈ after.head?, isBlank c = true ∨ c = ';') :
    words (before ++ w ++ after) = pieces before ++ w :: words after := by
  obtain ⟨hne, hw⟩ := hw
  have hwsemi : ';' ∉ w := fun hc => (hw ';' hc).2 rfl
  have hcode : ∀ c ∈ (codePart after).head?, isBlank c = true := by
    cases after with
    | nil => simp [codePart]
    | cons a after =>
      rcases hafter a rfl with ha | rfl
      · have hsemi : a ≠ ';' := by
          rintro rfl
          exact absurd ha (by decide)
        simpa [codePart, hsemi] using ha
      · simp [codePart]
  have hpieces : pieces (w ++ codePart after) = w :: pieces (codePart after) :=
    pieces_word_append hne (fun c hc => (hw c hc).1) hcode
  rw [words, List.append_assoc, codePart_append hsemi, codePart_append hwsemi]
  rcases List.eq_nil_or_concat before with rfl | ⟨front, b, rfl⟩
  · rw [pieces_nil, List.nil_append, List.nil_append, hpieces, words]
  · have hb : isBlank b = true := hbefore b (by simp)
    have hfront : pieces (front ++ [b]) = pieces front := by
      rw [pieces_append_blank hb, pieces_nil, List.append_nil]
    rw [List.concat_eq_append, List.append_assoc, List.singleton_append, pieces_append_blank hb,
      hpieces, hfront, words]

end

theorem kinds_of_rowEdit {row edited : List Char} (h : RowEdit row edited) :
    rowKinds row = rowKinds edited := by
  unfold rowKinds
  cases h with
  | comment _ text => rw [words_comment]
  | leading _ hblanks => rw [words_leading hblanks]
  | trailing _ hblanks => rw [words_trailing hblanks]
  | gap before after hne hblanks hne' hothers =>
    by_cases hsemi : ';' ∈ before
    · rw [List.append_assoc, List.append_assoc, words_append_of_mem hsemi,
        words_append_of_mem hsemi]
    · rw [words_gap hsemi hne hblanks, words_gap hsemi hne' hothers]
  | @word before after v w hsame hbefore hafter =>
    by_cases hsemi : ';' ∈ before
    · rw [List.append_assoc, List.append_assoc, words_append_of_mem hsemi,
        words_append_of_mem hsemi]
    · obtain ⟨hv, hw⟩ := hsame.isWord
      rw [words_word hsemi hbefore hv hafter, words_word hsemi hbefore hw hafter, List.map_append,
        List.map_append, List.map_cons, List.map_cons, hsame.ofWord_eq]

/-! ## Texts -/

theorem kindRows_eq (source : List Char) :
    kindRows source = ((source.splitOn '\n').map rowKinds).filter fun kinds => kinds ≠ [] := by
  rw [kindRows, ← texts_sourceLines, List.map_map]
  simp only [Line.kinds_tokens]
  rfl

theorem kinds_of_textEdit {rows edited : List (List Char)} (h : TextEdit rows edited) :
    (rows.map rowKinds).filter (fun kinds => kinds ≠ []) =
      (edited.map rowKinds).filter fun kinds => kinds ≠ [] := by
  cases h with
  | row above below hedit =>
    rw [List.map_append, List.map_append, List.map_cons, List.map_cons, kinds_of_rowEdit hedit]
  | @blankRow row above below hblank =>
    have hkinds : rowKinds row = [] := by
      have hwords := words_leading hblank []
      rw [List.append_nil] at hwords
      rw [rowKinds, hwords]
      rfl
    rw [List.map_append, List.map_append, List.map_cons, hkinds, List.filter_append,
      List.filter_append, List.filter_cons_of_neg (by simp)]

theorem kinds_of_textEdits {rows edited : List (List Char)}
    (h : Relation.EqvGen TextEdit rows edited) :
    (rows.map rowKinds).filter (fun kinds => kinds ≠ []) =
      (edited.map rowKinds).filter fun kinds => kinds ≠ [] := by
  induction h with
  | rel rows edited hedit => exact kinds_of_textEdit hedit
  | refl rows => rfl
  | symm rows edited _ ih => exact ih.symm
  | trans rows edited again _ _ first second => exact first.trans second

theorem kindRows_of_respelled {source other : List Char} (h : Respelled source other) :
    kindRows source = kindRows other := by
  rw [kindRows_eq, kindRows_eq]
  exact kinds_of_textEdits h

theorem outline_kindRows (source : List Char) :
    (Recast.plain id fun _ => 0).outline source = (kindRows source).map (Row.ofKinds 0) := by
  have hrow : ∀ l : Line, (Recast.plain id fun _ => 0).row l.row =
      .ofKinds 0 (l.tokens.map Token.kind) := by
    intro l
    rw [Recast.row_plain, funext (Recast.kind_plain_id _), List.map_id']
  simp only [Recast.outline, kindRows, hrow]
  rw [List.filter_map, List.filter_map, List.map_map]
  simp [Function.comp_def, Row.ofKinds]

theorem assembled_of_kindRows {s t : String} (h : kindRows s.toList = kindRows t.toList) :
    assembled AsmError.kind s = assembled AsmError.kind t := by
  let r := Recast.plain id fun _ => 0
  apply assembled_of_outline r.kind_error r.kind_error
  · exact Set.injOn_id _
  · exact Set.injOn_id _
  · rw [outline_kindRows, outline_kindRows, h]

theorem assembled_eq_ok_iff {α : Type} {view : AsmError → α} {source : String}
    {image : List UInt8} : assembled view source = .ok image ↔ assemble source = .ok image := by
  unfold assembled
  cases assemble source <;> simp [Except.mapError]

/-- Of a text only the classes of its words matter, line by line, and no change of spelling does. -/
theorem only_kinds_matter (s t : String) :
    (kindRows s.toList = kindRows t.toList →
      assembled AsmError.kind s = assembled AsmError.kind t) ∧
    (Respelled s.toList t.toList →
      ∀ image, assemble s = .ok image ↔ assemble t = .ok image) := by
  refine ⟨assembled_of_kindRows, fun h image => ?_⟩
  have hkinds := assembled_of_kindRows (kindRows_of_respelled h)
  have hs : assembled AsmError.kind s = .ok image ↔ assemble s = .ok image := assembled_eq_ok_iff
  rw [← hs, hkinds, assembled_eq_ok_iff]

theorem only_kinds_matter_of_push_pop :
    kindRows "PUSH A\nPOP B".toList = kindRows "PUSH R2; x\n\r\nPOP B".toList ∧
    Respelled "PUSH A\nPOP B".toList "PUSH R2; x\n\r\nPOP B".toList ∧
    assembled AsmError.kind "PUSH A\nPOP B" = assembled AsmError.kind "PUSH R2; x\n\r\nPOP B" ∧
    ∀ image, assemble "PUSH A\nPOP B" = .ok image ↔
      assemble "PUSH R2; x\n\r\nPOP B" = .ok image := by
  have hkinds : kindRows "PUSH A\nPOP B".toList =
      kindRows "PUSH R2; x\n\r\nPOP B".toList := by decide +kernel
  have hregister : SameWord ['A'] ['R', '2'] := .register (r := 2) (.inl rfl) (.inr rfl)
  have hlast : "PUSH ".toList.getLast? = some ' ' := by rfl
  have hword : RowEdit ("PUSH ".toList ++ ['A'] ++ []) ("PUSH ".toList ++ ['R', '2'] ++ []) := by
    refine .word hregister (fun c hc => ?_) fun c hc => ?_
    · obtain rfl := Option.some.inj (hlast.symm.trans hc)
      rfl
    · cases hc
  have hrewritten : TextEdit ["PUSH A".toList, "POP B".toList]
      ["PUSH R2".toList, "POP B".toList] := .row [] ["POP B".toList] hword
  have hcomment : RowEdit "PUSH R2".toList "PUSH R2; x".toList := .comment _ " x".toList
  have hcommented : TextEdit ["PUSH R2".toList, "POP B".toList]
      ["PUSH R2; x".toList, "POP B".toList] := .row [] ["POP B".toList] hcomment
  have hspaced : TextEdit ["PUSH R2; x".toList, "POP B".toList]
      ["PUSH R2; x".toList, ['\r'], "POP B".toList] :=
    .blankRow ["PUSH R2; x".toList] ["POP B".toList] (List.forall_mem_singleton.2 rfl)
  have hrespelled : Respelled "PUSH A\nPOP B".toList "PUSH R2; x\n\r\nPOP B".toList :=
    .trans _ _ _ (.rel _ _ hrewritten) (.trans _ _ _ (.rel _ _ hcommented) (.rel _ _ hspaced))
  obtain ⟨hsame, himage⟩ := only_kinds_matter "PUSH A\nPOP B" "PUSH R2; x\n\r\nPOP B"
  exact ⟨hkinds, hrespelled, hsame hkinds, himage hrespelled⟩

end Console16
