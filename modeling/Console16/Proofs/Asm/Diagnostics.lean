import Console16.Proofs.Asm.Report
import Console16.Proofs.Source.Location

/-!
# Console16.Proofs.Asm.Diagnostics

Where the errors of a text point. The line and the span of an error single out a stretch of one line
of the text, made of whole words before the comment; the stretch is what the problem is about. Errors
of a bad line take their span from the tokens of that line, an operand that names no label carries
the span of its word until labels are looked up.

* `exists_cut`: the tokens of a line and the stretch of the text they span.
* `assemble_points_at`: every error of a text with a line points at what it names.
-/

namespace Console16

open Text (width)

/-- A text cut at the ends of one line and of a stretch of that line. -/
structure Cut where
  above : String
  left : String
  marked : String
  right : String
  below : String

namespace Cut

def before (c : Cut) : String :=
  c.above ++ c.left

def row (c : Cut) : String :=
  c.left ++ c.marked ++ c.right

def text (c : Cut) : String :=
  c.above ++ c.row ++ c.below

/-- The cut is one of this text, its line has this number and its stretch this span. -/
structure At (c : Cut) (source : String) (line : Nat) (span : Span) : Prop where
  text : c.text = source
  offset : c.before.utf8ByteSize = span.offset
  length : c.marked.utf8ByteSize = span.length
  inside : span.stop ≤ source.utf8ByteSize
  number : c.before.toList.count '\n' + 1 = line
  row : (source.toList.splitOn '\n')[line - 1]? = some c.row.toList
  unbroken : '\n' ∉ c.marked.toList
  stretch : Stretch c.row.toList c.left.toList c.marked.toList c.right.toList

end Cut

/-- What a problem says of the stretch it marks. -/
def Problem.Concerns (c : Cut) : Problem → Prop
  | .unknownToken word | .expectedData word => c.marked = word
  | .misplacedRegister word | .unresolvedLabel word => c.marked = word
  | .duplicateLabel label | .labelNotAlone label => c.marked = label ++ ":"
  | .dataTooLarge bits => ∃ ds, IsLiteral c.marked.toList ds ∧ bits < 4 * ds.length
  | .invalidSyntax op =>
    words c.left.toList = [] ∧ (∃ ws, words c.marked.toList = op.mnemonic.toList :: ws) ∧
      words c.right.toList = []

/-! ## The stretch of some tokens -/

section
variable {source : String} {l : Line} {above left marked right below : List Char} {span : Span}

theorem cut_ofList (hsource : source.toList = above ++ l.text ++ below)
    (hoffset : width above = l.offset) (hnumber : above.count '\n' + 1 = l.number)
    (hrow : (source.toList.splitOn '\n')[l.number - 1]? = some l.text) (hfeed : '\n' ∉ l.text)
    (hstretch : Stretch l.text left marked right) (hstart : span.offset = l.offset + width left)
    (hlength : span.length = width marked) :
    (Cut.mk (.ofList above) (.ofList left) (.ofList marked) (.ofList right) (.ofList below)).At
      source l.number span := by
  have htext := hstretch.split
  have hcut : String.ofList above ++ (String.ofList left ++ String.ofList marked ++
      String.ofList right) ++ String.ofList below = source := by
    apply String.toList_inj.1
    simp [hsource, htext]
  have hsize : source.utf8ByteSize =
      width above + width left + width marked + width right + width below := by
    simp [← hcut, Text.utf8ByteSize_ofList, Nat.add_assoc]
  rw [htext, List.mem_append, List.mem_append, not_or, not_or] at hfeed
  obtain ⟨⟨hleft, hmarked⟩, -⟩ := hfeed
  constructor
  · exact hcut
  · simp [Cut.before, Text.utf8ByteSize_ofList, hstart, hoffset]
  · simp [Text.utf8ByteSize_ofList, hlength]
  · rw [Span.stop, hstart, hlength, hsize]
    omega
  · simp [Cut.before, ← hnumber, List.count_eq_zero.2 hleft]
  · simp [hrow, Cut.row, htext]
  · simpa using hmarked
  · simpa [Cut.row, ← htext] using hstretch

theorem spanOf_ofWord (w : Word) (ws : List Word) :
    spanOf (Token.ofWord w) (ws.map Token.ofWord) =
      ⟨w.offset, ((ws.getLast?).getD w).span.stop - w.offset⟩ := by
  rw [spanOf, List.getLast?_map]
  cases ws.getLast? <;> rfl

theorem chars_ofWord (w : Word) : (Token.ofWord w).chars = w.text := by
  simp [Token.chars, Token.ofWord]

theorem chars_map_ofWord (ws : List Word) :
    (ws.map Token.ofWord).map Token.chars = ws.map Word.text := by
  simp [chars_ofWord]

/-- The stretch of a text that some tokens of a line span. -/
theorem exists_cut (hl : l ∈ sourceLines source.toList) {before rest after : List Token}
    {first : Token} (h : l.tokens = before ++ first :: rest ++ after) :
    ∃ c : Cut, c.At source l.number (spanOf first rest) ∧
      words c.left.toList = before.map Token.chars ∧
      words c.marked.toList = (first :: rest).map Token.chars ∧
      words c.right.toList = after.map Token.chars ∧
      (rest = [] → c.marked.toList = first.chars) := by
  rw [Line.tokens_eq, tokensAt] at h
  obtain ⟨upto, wafter, hwords, hupto, rfl⟩ := List.map_eq_append_iff.1 h
  obtain ⟨wbefore, row, rfl, rfl, hrow⟩ := List.map_eq_append_iff.1 hupto
  obtain ⟨w, ws, rfl, rfl, rfl⟩ := List.map_eq_cons_iff.1 hrow
  obtain ⟨left, marked, right, hstretch, hleft, hmarked, hright, hstart, hstop, hprefix⟩ :=
    exists_stretch hwords
  obtain ⟨above, below, hsource, hoffset, hnumber, hnth, hfeed⟩ := exists_text_around hl
  have hlength : ((ws.getLast?).getD w).span.stop - w.offset = width marked := by
    rw [hstop, hstart, Text.width_append]
    omega
  refine ⟨_, cut_ofList hsource hoffset hnumber hnth hfeed hstretch ?_ ?_, ?_, ?_, ?_, ?_⟩
  · rw [spanOf_ofWord, hstart]
  · rw [spanOf_ofWord, hlength]
  · rw [String.toList_ofList, hleft, chars_map_ofWord]
  · rw [String.toList_ofList, hmarked, ← List.map_cons, chars_map_ofWord]
  · rw [String.toList_ofList, hright, chars_map_ofWord]
  · intro hnil
    obtain rfl := List.map_eq_nil_iff.1 hnil
    -- a single word is as wide as its stretch, which starts with it
    obtain ⟨tail, rfl⟩ := hprefix
    have htail : width tail = 0 := by
      have hone : ((([] : List Word).getLast?).getD w).span.stop - w.offset = width w.text :=
        Nat.add_sub_cancel_left ..
      rw [hone, Text.width_append] at hlength
      omega
    rw [String.toList_ofList, Text.eq_nil_of_width htail, List.append_nil, chars_ofWord]

theorem exists_cut_of_mem (hl : l ∈ sourceLines source.toList) {t : Token} (h : t ∈ l.tokens) :
    ∃ c : Cut, c.At source l.number t.span ∧ c.marked.toList = t.chars := by
  obtain ⟨before, after, htoks⟩ := List.append_of_mem h
  have hrow : l.tokens = before ++ t :: [] ++ after := by simpa using htoks
  obtain ⟨c, hat, -, -, -, hone⟩ := exists_cut hl hrow
  rw [Token.spanOf_nil] at hat
  exact ⟨c, hat, hone rfl⟩

end

/-! ## Bad lines -/

theorem Oversized.isLiteral {f : Format} {before : List (List Char)} {w : List Char} {bits : Nat}
    (h : Oversized f before w bits) : ∃ ds, IsLiteral w ds ∧ bits < 4 * ds.length := by
  cases h with
  | regImm _ hds hlong => exact ⟨_, hds, by omega⟩
  | addr hds hlong => exact ⟨_, hds, by omega⟩
  | byte hds hlong => exact ⟨_, hds, by omega⟩

theorem Blames.concerns {before marked after : List (List Char)} {p : Problem} {c : Cut}
    (h : Blames before marked after p) (hleft : words c.left.toList = before)
    (hmarked : words c.marked.toList = marked) (hright : words c.right.toList = after)
    (hone : ∀ w, marked = [w] → c.marked.toList = w) : p.Concerns c := by
  cases h with
  | @register w =>
    rw [Problem.Concerns, ← hone w rfl, String.ofList_toList]
  | @unknown w =>
    rw [Problem.Concerns, ← hone w rfl, String.ofList_toList]
  | @data _ _ w =>
    rw [Problem.Concerns, ← hone w rfl, String.ofList_toList]
  | @label name =>
    apply String.toList_inj.1
    rw [hone _ rfl, String.toList_append]
    rfl
  | @tooLarge op ws w bits hover =>
    rw [Problem.Concerns, hone w rfl]
    exact hover.isLiteral
  | @operands op ws => exact ⟨hleft, ⟨ws, hmarked⟩, hright⟩

theorem Item.tokens_of_label {toks : List Token} {line : Nat} {name : String} {span : Span}
    (h : ofTokens line toks = .ok (some (.label name span))) :
    ∃ t, toks = [t] ∧ t.kind = .declaration name ∧ span = t.span := by
  obtain ⟨-, he⟩ | ⟨_, _, _, _, -, -, -, he⟩ | ⟨-, -, he⟩ | ⟨_, t, rfl, hk, he⟩ := ofTokens_cases h
  · cases he
  · cases he
  · cases he
  · cases he
    exact ⟨t, rfl, hk, rfl⟩

theorem exists_cut_of_mem_errors {source : String} {p : Problem} {line : Nat} {span : Span}
    (h : .located p line span ∈ (Draft.ofLines (sourceLines source.toList)).errors.toList) :
    ∃ c : Cut, c.At source line span ∧ p.Concerns c := by
  obtain ⟨above, l, below, hsplit, herr⟩ := Draft.mem_errors_ofLines.1 h
  have hl : l ∈ sourceLines source.toList := by simp [hsplit]
  unfold Line.error? at herr
  split at herr
  · rename_i e hitem
    cases herr
    obtain ⟨before, first, rest, after, q, htoks, hblames, he⟩ :=
      Item.blamed_of_ofTokens l.honest_tokens hitem
    cases he
    obtain ⟨c, hat, hleft, hmarked, hright, hone⟩ := exists_cut hl htoks
    refine ⟨c, hat, hblames.concerns hleft hmarked hright ?_⟩
    intro w hw
    rw [List.map_cons, List.cons.injEq, List.map_eq_nil_iff] at hw
    exact (hone hw.2).trans hw.1
  · rename_i name s hitem
    split at herr
    · cases herr
      obtain ⟨t, htoks, hk, rfl⟩ := Item.tokens_of_label hitem
      have hmem : t ∈ l.tokens := by simp [htoks]
      obtain ⟨-, hw⟩ := TokenKind.ofWord_eq_iff.1 ((l.honest_tokens t hmem).symm.trans hk)
      obtain ⟨c, hat, hmarked⟩ := exists_cut_of_mem hl hmem
      refine ⟨c, hat, String.toList_inj.1 ?_⟩
      rw [hmarked, hw, String.toList_append]
      rfl
    · cases herr
  · cases herr

/-! ## Operands that name no label -/

theorem token_of_operands? {f : Format} {toks : List Token} {line : Nat} {o : Operands Target f}
    {ref : LabelRef} (h : operands? line f toks = some (.ok o)) (ho : o.imm? = some (.label ref)) :
    ∃ t ∈ toks, t.target? line = some (.ok (.label ref)) := by
  unfold operands? at h
  split at h
  · cases h
    cases ho
  · split at h
    · cases h
      cases ho
    · cases h
  · obtain ⟨r, -, hr⟩ := Option.map_eq_some_iff.1 h
    cases hr
    cases ho
  · rename_i a b
    split at h
    · obtain ⟨imm, himm, rfl⟩ := map_map_eq_ok_iff.1 h
      cases ho
      exact ⟨b, by simp, himm⟩
    · cases h
  · rename_i a
    obtain ⟨imm, himm, rfl⟩ := map_map_eq_ok_iff.1 h
    cases ho
    exact ⟨a, by simp, himm⟩
  · cases h
    cases ho
  · obtain ⟨imm, -, rfl⟩ := map_map_eq_ok_iff.1 h
    cases ho
  · cases h

theorem Token.of_target?_label {t : Token} {line : Nat} {ref : LabelRef}
    (h : t.target? line = some (.ok (.label ref))) :
    t.kind = .reference ref.name ∧ ref.line = line ∧ ref.span = t.span := by
  unfold target? at h
  split at h
  · cases h
  · cases h
  · cases h
  · rename_i hk
    cases h
    exact ⟨hk, rfl, rfl⟩
  · cases h

theorem Item.token_of_ref {toks : List Token} {line : Nat} {s : Stmt Target} {ref : LabelRef}
    (h : ofTokens line toks = .ok (some (.stmt s))) (hs : s.ref? = some ref) :
    ∃ t ∈ toks, t.kind = .reference ref.name ∧ ref.line = line ∧ ref.span = t.span := by
  obtain ⟨-, he⟩ | ⟨op, first, rest, o, rfl, -, ho, he⟩ | ⟨-, -, he⟩ | ⟨_, _, -, -, he⟩ :=
    ofTokens_cases h
  · cases he
  · cases he
    simp only [Stmt.ref?] at hs
    split at hs
    · rename_i r hr
      cases hs
      obtain ⟨t, ht, htarget⟩ := token_of_operands? ho hr
      exact ⟨t, List.mem_cons_of_mem first ht, Token.of_target?_label htarget⟩
    · cases hs
  · cases he
    cases hs
  · cases he

theorem Listing.of_mem_unresolved {l : Listing} {e : AsmError} (h : e ∈ l.unresolved) :
    ∃ s ∈ l.stmts.toList, ∃ ref, s.ref? = some ref ∧
      e = .located (.unresolvedLabel ref.name) ref.line ref.span := by
  unfold unresolved lookedUp at h
  simp only [List.mem_filterMap, List.mem_map] at h
  obtain ⟨_, ⟨s, hs, rfl⟩, he⟩ := h
  by_cases hdecl : ∀ ref, s.ref? = some ref → l.labels.get? ref.name ≠ none
  · rw [Stmt.resolve_of_declared hdecl] at he
    cases he
  · simp only [not_forall, not_not] at hdecl
    obtain ⟨ref, href, hnone⟩ := hdecl
    rw [Stmt.resolve_of_undeclared href hnone] at he
    cases he
    exact ⟨s, hs, ref, href, rfl⟩

theorem exists_cut_of_mem_unresolved {source : String} {e : AsmError}
    (h : e ∈ (Draft.ofLines (sourceLines source.toList)).listing.unresolved) :
    ∃ p line span, e = .located p line span ∧
      ∃ c : Cut, c.At source line span ∧ p.Concerns c := by
  obtain ⟨s, hs, ref, href, rfl⟩ := Listing.of_mem_unresolved h
  rw [Draft.stmts_ofLines, stmtsOf, List.mem_filterMap] at hs
  obtain ⟨l, hl, hstmt⟩ := hs
  obtain ⟨t, ht, hk, hline, hspan⟩ := Item.token_of_ref (Line.stmt?_eq_some_iff.1 hstmt) href
  obtain ⟨-, hw⟩ := TokenKind.ofWord_eq_iff.1 ((l.honest_tokens t ht).symm.trans hk)
  obtain ⟨c, hat, hmarked⟩ := exists_cut_of_mem hl ht
  refine ⟨_, _, _, rfl, c, ?_, String.toList_inj.1 (hmarked.trans hw)⟩
  rw [hline, hspan]
  exact hat

/-! ## All errors of a text -/

theorem Listing.errors_of_resolve {l : Listing} {errors : List AsmError}
    (h : l.resolve = .error errors) : errors = l.unresolved ++ l.oversized := by
  rw [resolve_eq] at h
  split at h
  · cases h
  · exact (Except.error.inj h).symm

theorem errors_of_assemble {source : String} {errors : List AsmError}
    (h : assemble source = .error errors) :
    errors = (Draft.ofLines (sourceLines source.toList)).errors.toList ∨
      errors = (Draft.ofLines (sourceLines source.toList)).listing.unresolved ++
        (Draft.ofLines (sourceLines source.toList)).listing.oversized := by
  unfold assemble programOf at h
  cases hl : Listing.ofSource source.toList with
  | error es =>
    simp only [hl, Except.map, Except.error.injEq] at h
    exact .inl (h ▸ (Listing.ofSource_eq_error_iff.1 hl).1)
  | ok l =>
    obtain ⟨-, hlisting⟩ := Listing.ofSource_eq_ok_iff.1 hl
    simp only [hl] at h
    cases hr : l.resolve with
    | error es =>
      simp only [hr, Except.map, Except.error.injEq] at h
      exact .inr (hlisting ▸ h ▸ Listing.errors_of_resolve hr)
    | ok program => simp [hr, Except.map] at h

/-- Every error with a line points at what it names, in bytes that are characters of that line. -/
theorem assemble_points_at (source : String) {errors : List AsmError} {p : Problem} {line : Nat}
    {span : Span} (h : assemble source = .error errors) (he : .located p line span ∈ errors) :
    ∃ c : Cut, c.At source line span ∧ p.Concerns c := by
  rcases errors_of_assemble h with herrors | herrors
  · rw [herrors] at he
    exact exists_cut_of_mem_errors he
  · rw [herrors, List.mem_append] at he
    rcases he with he | he
    · obtain ⟨q, m, s, heq, hcut⟩ := exists_cut_of_mem_unresolved he
      cases heq
      exact hcut
    · unfold Listing.oversized at he
      split at he
      · simp at he
      · cases he

theorem assemble_points_at_of_undeclared :
    assemble "; naïve\r\n\tJMPI nowhere ; é" =
        .error [.located (.unresolvedLabel "nowhere") 2 ⟨16, 7⟩] ∧
      ∃ c : Cut, c.At "; naïve\r\n\tJMPI nowhere ; é" 2 ⟨16, 7⟩ ∧
        Problem.Concerns c (.unresolvedLabel "nowhere") := by
  have h : assemble "; naïve\r\n\tJMPI nowhere ; é" =
      .error [.located (.unresolvedLabel "nowhere") 2 ⟨16, 7⟩] := by decide +kernel
  exact ⟨h, assemble_points_at _ h List.mem_cons_self⟩

end Console16
