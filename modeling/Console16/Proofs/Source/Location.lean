import Console16.Proofs.Source.Words
import Console16.Source.Token

/-!
# Console16.Proofs.Source.Location

Where lines and words lie. The offset of a line is the bytes of the text above it, and its number is
one more than the line feeds there. The offset of a word is the bytes of its line before it; a row of
consecutive words reaches from the start of the first to the end of the last, and what stands before
and after that stretch has the words before and after the row.

* `exists_text_around`: the text above a line and below it.
* `exists_stretch`: the stretch of a row of words.
-/

namespace Console16

open Text (isBlank width)

theorem of_mem_splitOnP {α : Type} {p : α → Bool} {xs piece : List α}
    (h : piece ∈ xs.splitOnP p) : ∀ x ∈ piece, p x = false := by
  induction xs generalizing piece with
  | nil =>
    rw [List.splitOnP_nil, List.mem_singleton] at h
    subst h
    exact fun x hx => absurd hx List.not_mem_nil
  | cons a xs ih =>
    rw [List.splitOnP_cons_eq_if_modifyHead] at h
    obtain ⟨first, rest, hsplit⟩ := List.exists_cons_of_ne_nil (List.splitOnP_ne_nil p xs)
    rw [hsplit] at h ih
    split at h
    · rcases List.mem_cons.1 h with rfl | h
      · exact fun x hx => absurd hx List.not_mem_nil
      · exact ih h
    · rename_i ha
      rw [List.modifyHead_cons, List.mem_cons] at h
      rcases h with rfl | h
      · intro x hx
        rcases List.mem_cons.1 hx with rfl | hx
        · simpa using ha
        · exact ih List.mem_cons_self x hx
      · exact ih (List.mem_cons_of_mem first h)

theorem notMem_of_mem_splitOn {c : Char} {cs piece : List Char} (h : piece ∈ cs.splitOn c) :
    c ∉ piece := by
  rw [List.splitOn_eq_splitOnP] at h
  intro hc
  have := of_mem_splitOnP h c hc
  simp at this

/-! ## Lines -/

/-- Rows of text, each with the line feed after it. -/
def fed (rows : List (List Char)) : List Char :=
  rows.flatMap (· ++ ['\n'])

@[simp] theorem fed_nil : fed [] = [] := rfl

@[simp] theorem fed_cons (row : List Char) (rows : List (List Char)) :
    fed (row :: rows) = row ++ '\n' :: fed rows := by
  simp [fed]

theorem width_feed : '\n'.utf8Size = 1 := rfl

theorem count_fed {rows : List (List Char)} (h : ∀ row ∈ rows, '\n' ∉ row) :
    (fed rows).count '\n' = rows.length := by
  induction rows with
  | nil => rfl
  | cons row rows ih =>
    have hrow := List.count_eq_zero.2 (h row List.mem_cons_self)
    have ih := ih fun r hr => h r (List.mem_cons_of_mem row hr)
    rw [fed_cons, List.count_append, List.count_cons_self, hrow, ih, List.length_cons, Nat.zero_add]

theorem intercalate_cons (row : List Char) (below : List (List Char)) :
    ['\n'].intercalate (row :: below) = row ++ below.flatMap ('\n' :: ·) := by
  induction below generalizing row with
  | nil => simp
  | cons next below ih =>
    rw [List.intercalate_cons_cons, ih next]
    simp

theorem intercalate_append (above : List (List Char)) (row : List Char)
    (below : List (List Char)) :
    ['\n'].intercalate (above ++ row :: below) = fed above ++ row ++ below.flatMap ('\n' :: ·) := by
  induction above with
  | nil => exact intercalate_cons row below
  | cons first above ih =>
    have hne : above ++ row :: below ≠ [] := by simp
    rw [List.cons_append, List.intercalate_cons_of_ne_nil hne, ih]
    simp

/-- Rows of text as lines, with the number and the offset of the first. -/
def linesFrom (number offset : Nat) (rows : List (List Char)) : List Line :=
  ((placed (fun row => width row + 1) offset rows).zipIdx number).map
    fun entry => ⟨entry.2, entry.1.1, entry.1.2⟩

theorem sourceLines_eq (source : List Char) :
    sourceLines source = linesFrom 1 0 (source.splitOn '\n') := by
  rw [← splitOn_eq]
  rfl

@[simp] theorem linesFrom_cons (number offset : Nat) (row : List Char) (rows : List (List Char)) :
    linesFrom number offset (row :: rows) =
      ⟨number, offset, row⟩ :: linesFrom (number + 1) (offset + (width row + 1)) rows := by
  simp [linesFrom, List.zipIdx_cons]

theorem split_of_mem_linesFrom {number offset : Nat} {rows : List (List Char)} {l : Line}
    (h : l ∈ linesFrom number offset rows) :
    ∃ above below, rows = above ++ l.text :: below ∧ l.number = number + above.length ∧
      l.offset = offset + width (fed above) := by
  induction rows generalizing number offset with
  | nil => cases h
  | cons row rows ih =>
    rw [linesFrom_cons, List.mem_cons] at h
    rcases h with rfl | h
    · exact ⟨[], rows, rfl, rfl, rfl⟩
    · obtain ⟨above, below, rfl, hnumber, hoffset⟩ := ih h
      refine ⟨row :: above, below, rfl, ?_, ?_⟩
      · rw [hnumber, List.length_cons]
        omega
      · rw [hoffset, fed_cons, Text.width_append, Text.width_cons, width_feed]
        omega

/-- The text around a line: its offset is the bytes above it, its number counts the line feeds. -/
theorem exists_text_around {source : List Char} {l : Line} (h : l ∈ sourceLines source) :
    ∃ above below, source = above ++ l.text ++ below ∧ width above = l.offset ∧
      above.count '\n' + 1 = l.number ∧ (source.splitOn '\n')[l.number - 1]? = some l.text ∧
      '\n' ∉ l.text := by
  rw [sourceLines_eq] at h
  obtain ⟨above, below, hrows, hnumber, hoffset⟩ := split_of_mem_linesFrom h
  have hfeed : ∀ row ∈ above ++ l.text :: below, '\n' ∉ row := fun row hrow =>
    notMem_of_mem_splitOn (hrows ▸ hrow)
  refine ⟨fed above, below.flatMap ('\n' :: ·), ?_, ?_, ?_, ?_, hfeed _ (by simp)⟩
  · rw [← intercalate_append, ← hrows, List.intercalate_splitOn]
  · rw [hoffset, Nat.zero_add]
  · rw [count_fed fun row hrow => hfeed row (List.mem_append_left _ hrow), hnumber, Nat.add_comm]
  · rw [hrows, hnumber, Nat.add_sub_cancel_left]
    simp

/-! ## Runs -/

/-- The words among some runs, the first of which starts at byte `offset`. -/
def runWords (offset : Nat) (runs : List (List Char)) : List Word :=
  ((placed width offset runs).filter fun run => !run.2.all isBlank).map fun run => ⟨run.1, run.2⟩

theorem wordsAt_eq (offset : Nat) (line : List Char) :
    wordsAt offset line = runWords offset (blankRuns (codePart line)) := rfl

theorem runWords_cons (offset : Nat) (run : List Char) (runs : List (List Char)) :
    runWords offset (run :: runs) =
      (if run.all isBlank then [] else [⟨offset, run⟩]) ++ runWords (offset + width run) runs := by
  unfold runWords
  rw [placed_cons, List.filter_cons]
  by_cases h : run.all isBlank = true
  · simp [h]
  · simp [h]

theorem runWords_append (offset : Nat) (xs ys : List (List Char)) :
    runWords offset (xs ++ ys) = runWords offset xs ++ runWords (offset + width xs.flatten) ys := by
  induction xs generalizing offset with
  | nil => rfl
  | cons x xs ih =>
    rw [List.cons_append, runWords_cons, runWords_cons, ih, List.flatten_cons, Text.width_append,
      Nat.add_assoc, List.append_assoc]

theorem runs_of_runWords {offset : Nat} {runs : List (List Char)} {before after : List Word}
    {w : Word} (h : runWords offset runs = before ++ w :: after) :
    ∃ xs ys, runs = xs ++ w.text :: ys ∧ w.offset = offset + width xs.flatten ∧
      runWords offset xs = before ∧ runWords w.offset [w.text] = [w] ∧
      runWords w.span.stop ys = after := by
  induction runs generalizing offset before with
  | nil => simp [runWords] at h
  | cons run runs ih =>
    have hcons := runWords_cons offset run runs
    rw [hcons] at h
    by_cases hrun : run.all isBlank = true
    · rw [if_pos hrun, List.nil_append] at h
      obtain ⟨xs, ys, rfl, hoffset, hxs, hys⟩ := ih h
      refine ⟨run :: xs, ys, rfl, ?_, ?_, hys⟩
      · rw [hoffset, List.flatten_cons, Text.width_append, Nat.add_assoc]
      · rw [runWords_cons, if_pos hrun, hxs, List.nil_append]
    · rw [if_neg hrun] at h
      cases before with
      | nil =>
        obtain ⟨rfl, rfl⟩ := List.cons_eq_cons.1 h
        refine ⟨[], runs, rfl, rfl, rfl, ?_, rfl⟩
        rw [runWords_cons, if_neg hrun]
        rfl
      | cons v before =>
        obtain ⟨rfl, hafter⟩ := List.cons_eq_cons.1 h
        obtain ⟨xs, ys, rfl, hoffset, hxs, hys⟩ := ih hafter
        refine ⟨run :: xs, ys, rfl, ?_, ?_, hys⟩
        · rw [hoffset, List.flatten_cons, Text.width_append, Nat.add_assoc]
        · rw [runWords_cons, if_neg hrun, hxs]
          rfl

theorem blankRuns_of_append {cs : List Char} {xs ys : List (List Char)}
    (h : blankRuns cs = xs ++ ys) :
    cs = xs.flatten ++ ys.flatten ∧ blankRuns xs.flatten = xs ∧ blankRuns ys.flatten = ys := by
  obtain ⟨hcs, hne, hrun, hadj⟩ := List.splitBy_eq_iff.1 h
  rw [List.mem_append, not_or] at hne
  refine ⟨by rw [hcs, List.flatten_append], ?_, ?_⟩
  · exact List.splitBy_flatten hne.1 (fun run hr => hrun run (List.mem_append_left ys hr))
      hadj.left_of_append
  · exact List.splitBy_flatten hne.2 (fun run hr => hrun run (List.mem_append_right xs hr))
      hadj.right_of_append

/-! ## Words -/

theorem semicolon_notMem_codePart (line : List Char) : ';' ∉ codePart line := by
  intro h
  have := List.mem_takeWhile_imp h
  simp at this

/-- A line is its code and, after it, nothing or a comment. -/
theorem line_eq (line : List Char) :
    line = codePart line ∨ ∃ comment, line = codePart line ++ ';' :: comment := by
  have h : codePart line ++ line.dropWhile (· != ';') = line := List.takeWhile_append_dropWhile
  cases hrest : line.dropWhile (· != ';') with
  | nil =>
    rw [hrest, List.append_nil] at h
    exact .inl h.symm
  | cons c comment =>
    have hc := List.head_dropWhile_not (· != ';') (l := line) (by simp [hrest])
    simp only [hrest, List.head_cons, bne_eq_false_iff_eq] at hc
    rw [hrest, hc] at h
    exact .inr ⟨comment, h.symm⟩

/-- A line cut between two runs of its code. -/
theorem cut_of_runs {line : List Char} {xs ys : List (List Char)}
    (h : blankRuns (codePart line) = xs ++ ys) :
    ∃ right, line = xs.flatten ++ right ∧ ';' ∉ xs.flatten ∧ ys.flatten <+: right ∧
      (∀ offset, wordsAt offset xs.flatten = runWords offset xs) ∧
      ∀ offset, wordsAt offset right = runWords offset ys := by
  obtain ⟨hcode, hxs, hys⟩ := blankRuns_of_append h
  have hsemi := semicolon_notMem_codePart line
  rw [hcode, List.mem_append, not_or] at hsemi
  have hleft : ∀ offset, wordsAt offset xs.flatten = runWords offset xs := fun offset => by
    rw [wordsAt_eq, codePart_eq_self hsemi.1, hxs]
  rcases line_eq line with hline | ⟨comment, hline⟩
  · refine ⟨ys.flatten, hline.trans hcode, hsemi.1, List.prefix_rfl, hleft, fun offset => ?_⟩
    rw [wordsAt_eq, codePart_eq_self hsemi.2, hys]
  · rw [hcode, List.append_assoc] at hline
    refine ⟨_, hline, hsemi.1, List.prefix_append .., hleft, fun offset => ?_⟩
    rw [wordsAt_eq, codePart_append_comment hsemi.2, hys]

section
variable {offset : Nat} {line : List Char} {before after : List Word} {w : Word}

theorem cut_before (h : wordsAt offset line = before ++ w :: after) :
    ∃ left right, line = left ++ right ∧ w.offset = offset + width left ∧ ';' ∉ left ∧
      w.text <+: right ∧ wordsAt offset left = before ∧ wordsAt w.offset right = w :: after := by
  obtain ⟨xs, ys, hruns, hoffset, hbefore, hw, hafter⟩ := runs_of_runWords h
  obtain ⟨right, hline, hsemi, hpre, hleft, hright⟩ := cut_of_runs hruns
  rw [List.flatten_cons] at hpre
  refine ⟨xs.flatten, right, hline, hoffset, hsemi, (List.prefix_append ..).trans hpre, ?_, ?_⟩
  · rw [hleft, hbefore]
  · have hflat : [w.text].flatten = w.text := by simp
    rw [hright, ← List.singleton_append, runWords_append, hw, hflat, ← hafter]
    rfl

theorem cut_after (h : wordsAt offset line = before ++ w :: after) :
    ∃ left right, line = left ++ right ∧ w.span.stop = offset + width left ∧ ';' ∉ left ∧
      w.text <:+ left ∧ wordsAt offset left = before ++ [w] ∧
      wordsAt w.span.stop right = after := by
  obtain ⟨xs, ys, hruns, hoffset, hbefore, hw, hafter⟩ := runs_of_runWords h
  rw [← List.singleton_append, ← List.append_assoc] at hruns
  obtain ⟨right, hline, hsemi, -, hleft, hright⟩ := cut_of_runs hruns
  have hflat : (xs ++ [w.text]).flatten = xs.flatten ++ w.text := by simp
  rw [hflat] at hline hsemi hleft
  refine ⟨_, right, hline, ?_, hsemi, List.suffix_append .., ?_, ?_⟩
  · rw [Text.width_append, ← Nat.add_assoc, ← hoffset]
    rfl
  · rw [hleft, runWords_append, hbefore, ← hoffset, hw]
  · exact (hright _).trans hafter

/-- A stretch of a line: whole words of its code, from the start of one to the end of one. -/
structure Stretch (line left marked right : List Char) : Prop where
  split : line = left ++ marked ++ right
  code : ';' ∉ left ++ marked
  words : words line = words left ++ words marked ++ words right
  starts : ∀ c ∈ marked.head?, isBlank c = false
  ends : ∀ c ∈ marked.getLast?, isBlank c = false

theorem not_blank_of_mem_pieces {cs w : List Char} (h : w ∈ pieces cs) :
    w ≠ [] ∧ ∀ c ∈ w, isBlank c = false := by
  obtain ⟨hmem, hne⟩ := List.mem_filter.1 h
  exact ⟨by simpa using hne, of_mem_splitOnP hmem⟩

theorem not_blank_of_mem_wordsAt (h : w ∈ wordsAt offset line) :
    w.text ≠ [] ∧ ∀ c ∈ w.text, isBlank c = false := by
  have hmem : w.text ∈ words line := texts_wordsAt offset line ▸ List.mem_map_of_mem h
  exact not_blank_of_mem_pieces hmem

/-- The stretch of a row of words: where it starts and ends, and the words around it. -/
theorem exists_stretch {first : Word} {rest : List Word}
    (h : wordsAt offset line = before ++ first :: rest ++ after) :
    ∃ left marked right, Stretch line left marked right ∧
      words left = before.map Word.text ∧ words marked = (first :: rest).map Word.text ∧
      words right = after.map Word.text ∧ first.offset = offset + width left ∧
      ((rest.getLast?).getD first).span.stop = offset + width (left ++ marked) ∧
      first.text <+: marked := by
  generalize hlast : (rest.getLast?).getD first = last
  obtain ⟨init, hinit⟩ : ∃ init, first :: rest = init ++ [last] := by
    rcases List.eq_nil_or_concat rest with rfl | ⟨init, v, rfl⟩
    · exact ⟨[], by simpa using hlast⟩
    · exact ⟨first :: init, by simpa using hlast⟩
  -- the line is cut after the last word of the row, and what is left of the cut before its first
  have hcut : wordsAt offset line = (before ++ init) ++ last :: after := by
    rw [h, hinit]
    simp
  obtain ⟨upto, right, hline, hstop, hcode, hsuffix, hupto, hright⟩ := cut_after hcut
  rw [List.append_assoc, ← hinit] at hupto
  obtain ⟨left, marked, rfl, hstart, -, hprefix, hleft, hmarked⟩ := cut_before hupto
  have hmarked' : words marked = (first :: rest).map Word.text := by
    rw [← texts_wordsAt first.offset, hmarked]
  have hleft' : words left = before.map Word.text := by rw [← texts_wordsAt offset, hleft]
  have hright' : words right = after.map Word.text := by rw [← texts_wordsAt _ right, hright]
  have hmem : first ∈ wordsAt offset line ∧ last ∈ wordsAt offset line :=
    ⟨by simp [h], by simp [hcut]⟩
  obtain ⟨hfirst, hfirst'⟩ := not_blank_of_mem_wordsAt hmem.1
  obtain ⟨hlast, hlast'⟩ := not_blank_of_mem_wordsAt hmem.2
  refine ⟨left, marked, right, ⟨hline, hcode, ?_, ?_, ?_⟩, hleft', hmarked', hright', hstart, hstop,
    hprefix⟩
  · rw [hleft', hmarked', hright', ← texts_wordsAt offset line, h, List.map_append, List.map_append]
  · intro c hc
    obtain ⟨tail, rfl⟩ := hprefix
    rw [List.head?_append_of_ne_nil _ hfirst] at hc
    exact hfirst' c (List.mem_of_mem_head? hc)
  · intro c hc
    have hne : marked ≠ [] := fun hnil => hfirst (List.prefix_nil.1 (hnil ▸ hprefix))
    rw [← List.getLast?_append_of_ne_nil left hne] at hc
    obtain ⟨front, hfront⟩ := hsuffix
    rw [← hfront, List.getLast?_append_of_ne_nil front hlast] at hc
    exact hlast' c (List.mem_of_mem_getLast? hc)

end

end Console16
