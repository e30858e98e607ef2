import Console16.Proofs.Source.Scanning
import Console16.Source.Token

/-!
# Console16.Proofs.Source.Tokenizing

The cursor and its loops against the words of a line. A cursor cuts its line in three: what is before
the token, the token as far as it was read, and what is left. Each step moves the two cuts, so the
byte positions of the cursor are those of the words, and the predicate at the end of a line, where
the next character is a zero, makes no difference.

* `Cursor.At.takeWhile`: what a loop over characters passes.
* `Cursor.At.advanceWord`: one word.
* `Cursor.scans_collect`: all words that are left, by induction on what is left.
* `tokenizeLine_eq`: the tokens are the words of the line, classified.
* `tokens_are_maximal_runs`: the tokens of every line.
-/

namespace Console16

open Text (isBlank width)

/-- A cursor behind some text and the token that it is reading, with some text left. -/
structure Cursor.At (c : Cursor) (before token rest : List Char) : Prop where
  input : c.input.chars = before ++ token ++ rest
  token : c.token.chars = token ++ rest
  chars : c.chars.chars = rest

/-- The words of a line that starts at byte `offset`, classified. -/
def tokensAt (offset : Nat) (cs : List Char) : List Token :=
  (wordsAt offset cs).map Token.ofWord

namespace Cursor

variable {c : Cursor} {before token rest : List Char} {d : Char}

theorem at_new (line : List Char) : (new line).At [] [] line :=
  ⟨rfl, rfl, rfl⟩

namespace At

/-! ## Positions -/

theorem pos (h : c.At before token rest) : c.pos = width (before ++ token) := by
  rw [Cursor.pos, c.input.bytes_eq, c.chars.bytes_eq, h.input, h.chars, Text.width_append,
    Nat.add_sub_cancel_right]

theorem tokenStart (h : c.At before token rest) : c.tokenStart = width before := by
  rw [Cursor.tokenStart, c.input.bytes_eq, c.token.bytes_eq, h.input, h.token, List.append_assoc,
    Text.width_append, Nat.add_sub_cancel_right]

theorem tokenStr (h : c.At before token rest) : c.tokenStr = token := by
  rw [Cursor.tokenStr, h.pos, h.tokenStart, h.token, Text.width_append, Nat.add_sub_cancel_left,
    Text.takeBytes_width]

/-! ## Steps -/

theorem first (h : c.At before token (d :: rest)) : c.first = d := by
  rw [Cursor.first, h.chars]
  rfl

theorem isEof_iff (h : c.At before token rest) : c.isEof = true ↔ rest = [] := by
  rw [isEof, h.chars, List.isEmpty_iff]

theorem bump (h : c.At before token (d :: rest)) : c.bump.At before (token ++ [d]) rest where
  input := by
    rw [List.append_assoc, List.append_assoc]
    exact h.input.trans (List.append_assoc ..)
  token := by
    rw [List.append_assoc]
    exact h.token
  chars := by
    rw [Cursor.bump, Text.Slice.chars_tail, h.chars]
    rfl

theorem resetPos (h : c.At before token rest) : c.resetPos.At (before ++ token) [] rest where
  input := by
    rw [List.append_nil]
    exact h.input
  token := h.chars
  chars := h.chars

/-- The loop passes the characters that meet the predicate. At the end of the input it stops, also
when a zero would meet it. -/
theorem takeWhile (p : Char → Bool) (h : c.At before token rest) :
    (c.takeWhile p).At before (token ++ rest.takeWhile p) (rest.dropWhile p) := by
  induction rest generalizing c token with
  | nil =>
    have hstop : ¬(p c.first = true ∧ c.isEof = false) := by
      rw [h.isEof_iff.2 rfl]
      nofun
    rw [Cursor.takeWhile, dif_neg hstop]
    simpa using h
  | cons d rest ih =>
    have heof : c.isEof = false := by
      rw [← Bool.not_eq_true, h.isEof_iff]
      exact List.cons_ne_nil d rest
    rw [Cursor.takeWhile, h.first]
    cases hd : p d with
    | true =>
      rw [dif_pos ⟨rfl, heof⟩, List.takeWhile_cons_of_pos hd, List.dropWhile_cons_of_pos hd]
      have hnext := ih h.bump
      rwa [List.append_assoc, List.singleton_append] at hnext
    | false =>
      rw [dif_neg (fun hloop => Bool.false_ne_true hloop.1),
        List.takeWhile_cons_of_neg (Bool.not_eq_true _ ▸ hd), List.append_nil,
        List.dropWhile_cons_of_neg (Bool.not_eq_true _ ▸ hd)]
      exact h

end At

/-! ## Words -/

theorem inWord_iff : inWord d = true ↔ isBlank d = false ∧ d ≠ ';' := by
  rw [inWord, Bool.and_eq_true, Bool.not_eq_true', bne_iff_ne]

theorem isWord_takeWhile (hd : inWord d = true) : IsWord ((d :: rest).takeWhile inWord) := by
  rw [List.takeWhile_cons_of_pos hd]
  refine ⟨List.cons_ne_nil _ _, fun c hc => ?_⟩
  rw [← List.takeWhile_cons_of_pos hd] at hc
  exact inWord_iff.1 (List.mem_takeWhile_imp hc)

theorem endsWord_dropWhile (cs : List Char) : EndsWord (cs.dropWhile inWord) := by
  intro c hc
  have hstop : inWord c = false := by
    have hhead := List.head?_dropWhile_not inWord cs
    rwa [hc] at hhead
  rw [Bool.eq_false_iff, ne_eq, inWord_iff, not_and_or, Bool.not_eq_false, not_not] at hstop
  exact hstop

/-- The next word is behind the blanks at which the cursor stands, and reaches to the next blank or
semicolon. If there is none, only blanks are left, or blanks and a comment. -/
theorem At.advanceWord (h : c.At before token rest) :
    (c.advanceWord = none ∧ ∀ offset, Scans offset rest []) ∨
      ∃ blanks word after next, rest = blanks ++ (word ++ after) ∧
        (∀ b ∈ blanks, isBlank b = true) ∧ IsWord word ∧ EndsWord after ∧
        c.advanceWord = some (word, next) ∧ next.At (before ++ (token ++ blanks)) word after := by
  have hskip := h.takeWhile isBlank
  have hrest : rest = rest.takeWhile isBlank ++ rest.dropWhile isBlank :=
    List.takeWhile_append_dropWhile.symm
  have hblanks : ∀ b ∈ rest.takeWhile isBlank, isBlank b = true :=
    fun b hb => List.mem_takeWhile_imp hb
  rw [Cursor.advanceWord]
  cases hleft : rest.dropWhile isBlank with
  | nil =>
    left
    rw [hleft] at hskip hrest
    rw [hskip.isEof_iff.2 rfl]
    exact ⟨rfl, fun offset => hrest ▸ Scans.blanks hblanks .finish⟩
  | cons d tail =>
    rw [hleft] at hskip hrest
    have heof : (c.takeWhile isBlank).isEof = false := by
      rw [← Bool.not_eq_true, hskip.isEof_iff]
      exact List.cons_ne_nil d tail
    rw [heof, hskip.first]
    by_cases hsemi : d = ';'
    · left
      subst hsemi
      exact ⟨rfl, fun offset => hrest ▸ Scans.blanks hblanks .comment⟩
    · right
      have hblank : isBlank d = false := by
        have hstop := List.head?_dropWhile_not isBlank rest
        rwa [hleft] at hstop
      have hword := hskip.resetPos.takeWhile inWord
      refine ⟨_, _, _, _, ?_, hblanks, isWord_takeWhile (inWord_iff.2 ⟨hblank, hsemi⟩),
        endsWord_dropWhile (d :: tail), ?_, hword⟩
      · rw [List.takeWhile_append_dropWhile]
        exact hrest
      · simp only [Bool.false_or, beq_iff_eq, hsemi, if_false, hword.tokenStr, List.nil_append]

/-! ## Lines -/

/-- The loop over the words reads the rest of the line to its end. -/
theorem scans_collect (offset : Nat) (tokens : Array Token) (h : c.At before token rest) :
    ∃ ws, Scans (offset + width (before ++ token)) rest ws ∧
      (c.collect offset tokens).toList = tokens.toList ++ ws.map Token.ofWord := by
  fun_induction collect offset tokens c generalizing before token rest with
  | case1 tokens c hnone =>
    rcases h.advanceWord with ⟨-, hscans⟩ | ⟨_, _, _, _, -, -, -, -, hsome, -⟩
    · exact ⟨[], hscans _, (List.append_nil _).symm⟩
    · rw [hnone] at hsome
      cases hsome
  | case2 tokens c word next hsome ih =>
    rcases h.advanceWord with ⟨hnone, -⟩ | ⟨blanks, w, after, c', hrest, hblanks, hw, hends, heq, hat⟩
    · rw [hnone] at hsome
      cases hsome
    · rw [hsome] at heq
      cases heq
      obtain ⟨ws, hscans, hcollect⟩ := ih hat
      refine ⟨⟨offset + width (before ++ (token ++ blanks)), word⟩ :: ws, ?_, ?_⟩
      · rw [hrest]
        refine Scans.blanks hblanks ?_
        rw [Nat.add_assoc, ← Text.width_append, List.append_assoc]
        refine .word hw hends ?_
        rwa [Nat.add_assoc, ← Text.width_append]
      · rw [hcollect, hat.tokenStart, Array.toList_push, List.append_assoc, List.map_cons]
        rfl

end Cursor

theorem scans_tokenizeLine (offset : Nat) (line : List Char) :
    ∃ ws, Scans offset line ws ∧ tokenizeLine offset line = ws.map Token.ofWord :=
  Cursor.scans_collect offset #[] (Cursor.at_new line)

theorem tokenizeLine_eq (offset : Nat) (line : List Char) :
    tokenizeLine offset line = tokensAt offset line := by
  obtain ⟨ws, hscans, htokens⟩ := scans_tokenizeLine offset line
  rw [htokens, scans_iff.1 hscans, tokensAt]

theorem Line.tokens_eq (l : Line) : l.tokens = tokensAt l.offset l.text :=
  tokenizeLine_eq l.offset l.text

/-! ## Tokens -/

theorem spans_tokensAt (offset : Nat) (line : List Char) :
    (tokensAt offset line).map Token.span = (wordsAt offset line).map Word.span := by
  rw [tokensAt, List.map_map]
  rfl

theorem standsFor_of_zero {d : Char} (hblank : isBlank d = false) (hsemi : d ≠ ';')
    (hsize : d.utf8Size = 1) (c : Char) : StandsFor (if c = '\x00' then d else c) c := by
  split
  · rename_i hc
    subst hc
    refine ⟨hblank, ?_, hsize⟩
    simpa using hsemi
  · exact ⟨rfl, Iff.rfl, rfl⟩

/-- Whatever characters are in a line, reading it with a cursor ends, and the tokens are the maximal
runs of its code from left to right: each is classified by its text, has the bytes of its text, and
stands where the bytes before it end. The text of a token is not empty and has no blank and no
semicolon in it, and tokens do not touch. A zero character is like any other character that is not
blank, though the cursor takes it for the next one at the end: it is in a token, and another one of
its size in its place leaves all tokens where they are. -/
theorem tokens_are_maximal_runs (offset : Nat) (line : List Char) :
    tokenizeLine offset line = tokensAt offset line ∧
    (∃ ws, Scans offset line ws ∧ tokenizeLine offset line = ws.map Token.ofWord) ∧
    (∀ tok, tok ∈ tokenizeLine offset line ↔
      ∃ before run after, MaximalRun line before run after ∧
        tok = ⟨.ofWord run, String.ofList run, ⟨offset + width before, width run⟩⟩) ∧
    (tokenizeLine offset line).Pairwise (fun a b => a.span.stop < b.span.offset) ∧
    (∀ tok ∈ tokenizeLine offset line, tok.text ≠ "" ∧
      ∀ c ∈ tok.text.toList, isBlank c = false ∧ c ≠ ';') ∧
    (∀ before after, line = before ++ '\x00' :: after → ';' ∉ before →
      ∃ tok ∈ tokenizeLine offset line, '\x00' ∈ tok.text.toList ∧
        tok.span.offset ≤ offset + width before ∧ offset + width before < tok.span.stop) ∧
    ∀ d, isBlank d = false → d ≠ ';' → d.utf8Size = 1 →
      (tokenizeLine offset (line.map fun c => if c = '\x00' then d else c)).map Token.span =
        (tokenizeLine offset line).map Token.span := by
  have hscans := scans_wordsAt offset line
  have hmem : ∀ tok, tok ∈ tokenizeLine offset line ↔
      ∃ before run after, MaximalRun line before run after ∧
        tok = ⟨.ofWord run, String.ofList run, ⟨offset + width before, width run⟩⟩ := by
    intro tok
    rw [tokenizeLine_eq, tokensAt, List.mem_map]
    constructor
    · rintro ⟨⟨start, text⟩, hw, rfl⟩
      obtain ⟨before, after, hrun, rfl⟩ := hscans.mem_iff.1 hw
      exact ⟨before, text, after, hrun, rfl⟩
    · rintro ⟨before, run, after, hrun, rfl⟩
      exact ⟨⟨offset + width before, run⟩, hscans.mem_iff.2 ⟨before, after, hrun, rfl⟩, rfl⟩
  have heq := tokenizeLine_eq offset
  refine ⟨heq line, ⟨_, hscans, heq line⟩, hmem, ?_, ?_, ?_, ?_⟩
  · rw [heq, tokensAt, List.pairwise_map]
    exact hscans.pairwise
  · intro tok htok
    obtain ⟨before, run, after, hrun, rfl⟩ := (hmem tok).1 htok
    rw [String.toList_ofList]
    refine ⟨fun hempty => hrun.isWord.1 ?_, hrun.isWord.2⟩
    have := congrArg String.toList hempty
    rwa [String.toList_ofList] at this
  · intro before after hline hcode
    obtain ⟨w, hw, hc, hstart, hstop⟩ := hscans.covers hline hcode (by decide) (by decide)
    refine ⟨.ofWord w, heq line ▸ List.mem_map_of_mem hw, ?_, hstart, hstop⟩
    rwa [Token.ofWord, String.toList_ofList]
  · intro d hblank hsemi hsize
    have hf := standsFor_of_zero hblank hsemi hsize
    rw [heq, heq, spans_tokensAt, spans_tokensAt, ← scans_iff.1 (hscans.map hf), List.map_map]
    apply List.map_congr_left
    intro w _
    simp only [Function.comp_apply, Word.span, width_map hf]

/-- A wide blank, a zero character inside a word, a letter of two bytes, and a comment right behind
a word. -/
def zeroLine : List Char := "\u2003ADD\tA\x00 é;B".toList

theorem tokens_are_maximal_runs_of_zero_character :
    tokenizeLine 100 zeroLine = [⟨.opcode .add, "ADD", ⟨103, 3⟩⟩, ⟨.unknown, "A\x00", ⟨107, 2⟩⟩,
      ⟨.unknown, "é", ⟨110, 2⟩⟩] ∧
    (∃ tok ∈ tokenizeLine 100 zeroLine, '\x00' ∈ tok.text.toList ∧ tok.span.offset ≤ 108 ∧
      108 < tok.span.stop) ∧
    (tokenizeLine 100 (zeroLine.map fun c => if c = '\x00' then 'Z' else c)).map Token.span =
      [⟨103, 3⟩, ⟨107, 2⟩, ⟨110, 2⟩] ∧
    ∀ c ∈ "A\x00".toList, isBlank c = false ∧ c ≠ ';' := by
  have htokens : tokenizeLine 100 zeroLine = [⟨.opcode .add, "ADD", ⟨103, 3⟩⟩,
      ⟨.unknown, "A\x00", ⟨107, 2⟩⟩, ⟨.unknown, "é", ⟨110, 2⟩⟩] := by
    rw [tokenizeLine_eq]
    decide
  obtain ⟨-, -, -, -, htext, hzero, hother⟩ := tokens_are_maximal_runs 100 zeroLine
  refine ⟨htokens, ?_, ?_, ?_⟩
  · exact hzero "\u2003ADD\tA".toList " é;B".toList (by decide) (by decide)
  · rw [hother 'Z' (by decide) (by decide) (by decide), htokens]
    rfl
  · exact (htext ⟨.unknown, "A\x00", ⟨107, 2⟩⟩ (by simp [htokens])).2

end Console16
