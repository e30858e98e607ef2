import Console16.Source.Line
import Console16.Source.Word
import Mathlib.Data.List.SplitBy
import Mathlib.Data.List.TakeWhile

/-!
# Console16.Proofs.Source.Words

The lines of a text and the words of a line, said without a cursor. The words are the runs of
characters that are not blank, up to the first semicolon. Without runs and offsets, lines are the
pieces between line feeds and words the non-empty pieces between blanks.

* `wordsAt`: the words of a line with the bytes at which they start.
* `codePart_append_comment`: a comment is dropped whole.
* `texts_wordsAt`: the runs that are words are the non-empty pieces, in order.
* `words_intercalate`: words with a blank between them are read as these words.
* `texts_sourceLines`, `pairwise_number_sourceLines`: lines keep their text, and their numbers
  increase.
-/

namespace Console16

open Text (isBlank width)

/-- The part of a line before its comment. -/
def codePart (cs : List Char) : List Char :=
  cs.takeWhile (· != ';')

/-- Maximal runs of blanks and of other characters, in turn. -/
def blankRuns (cs : List Char) : List (List Char) :=
  cs.splitBy fun a b => isBlank a == isBlank b

/-- The words of a line that starts at byte `offset`. -/
def wordsAt (offset : Nat) (cs : List Char) : List Word :=
  ((placed width offset (blankRuns (codePart cs))).filter fun run => !run.2.all isBlank).map
    fun run => ⟨run.1, run.2⟩

theorem codePart_append_comment {cs comment : List Char} (h : ';' ∉ cs) :
    codePart (cs ++ ';' :: comment) = cs := by
  induction cs with
  | nil => rfl
  | cons c cs ih =>
    simp only [List.mem_cons, not_or] at h
    simp only [codePart, List.cons_append] at ih ⊢
    rw [List.takeWhile_cons_of_pos (by simpa using Ne.symm h.1), ih h.2]

/-- The pieces between blanks that are not empty. -/
def pieces (cs : List Char) : List (List Char) :=
  (cs.splitOnP isBlank).filter fun w => w ≠ []

/-- The words of a line. -/
def words (line : List Char) : List (List Char) :=
  pieces (codePart line)

@[simp] theorem pieces_nil : pieces [] = [] := by
  simp [pieces, List.splitOnP_nil]

theorem pieces_append_blank {c : Char} (hc : isBlank c = true) (xs ys : List Char) :
    pieces (xs ++ c :: ys) = pieces xs ++ pieces ys := by
  rw [pieces, List.splitOnP_append_cons xs ys hc, List.filter_append]
  rfl

theorem pieces_cons_blank {c : Char} (hc : isBlank c = true) (cs : List Char) :
    pieces (c :: cs) = pieces cs := by
  have := pieces_append_blank hc [] cs
  simpa using this

theorem pieces_blanks_append {bs : List Char} (hb : ∀ c ∈ bs, isBlank c = true)
    (cs : List Char) : pieces (bs ++ cs) = pieces cs := by
  induction bs with
  | nil => rfl
  | cons b bs ih =>
    rw [List.cons_append, pieces_cons_blank (hb b List.mem_cons_self)]
    exact ih fun c hc => hb c (List.mem_cons_of_mem b hc)

theorem pieces_of_no_blank {w : List Char} (hne : w ≠ []) (hw : ∀ c ∈ w, isBlank c = false) :
    pieces w = [w] := by
  rw [pieces, List.splitOnP_eq_singleton hw]
  simp [hne]

theorem pieces_word_append {w : List Char} (hne : w ≠ []) (hw : ∀ c ∈ w, isBlank c = false)
    {cs : List Char} (hcs : ∀ c ∈ cs.head?, isBlank c = true) :
    pieces (w ++ cs) = w :: pieces cs := by
  cases cs with
  | nil => simpa using pieces_of_no_blank hne hw
  | cons c cs =>
    have hc := hcs c rfl
    rw [pieces_append_blank hc, pieces_of_no_blank hne hw, pieces_cons_blank hc]
    rfl

/-- A row of characters that cannot be cut: no blank and no semicolon. -/
def IsWord (w : List Char) : Prop :=
  w ≠ [] ∧ ∀ c ∈ w, isBlank c = false ∧ c ≠ ';'

theorem pieces_intercalate {b : Char} (hb : isBlank b = true) {ws : List (List Char)}
    (hws : ∀ w ∈ ws, IsWord w) : pieces ([b].intercalate ws) = ws := by
  induction ws with
  | nil => rfl
  | cons w ws ih =>
    obtain ⟨hne, hw⟩ := hws w List.mem_cons_self
    have ih := ih fun v hv => hws v (List.mem_cons_of_mem w hv)
    cases ws with
    | nil =>
      rw [List.intercalate_singleton]
      exact pieces_of_no_blank hne fun c hc => (hw c hc).1
    | cons v ws =>
      rw [List.intercalate_cons_cons, List.append_assoc, List.singleton_append,
        pieces_append_blank hb, pieces_of_no_blank hne fun c hc => (hw c hc).1, ih]
      rfl

theorem notMem_intercalate {b c : Char} (hbc : c ≠ b) {ws : List (List Char)}
    (hws : ∀ w ∈ ws, c ∉ w) : c ∉ [b].intercalate ws := by
  induction ws with
  | nil => exact List.not_mem_nil
  | cons w ws ih =>
    have ih := ih fun v hv => hws v (List.mem_cons_of_mem w hv)
    cases ws with
    | nil =>
      rw [List.intercalate_singleton]
      exact hws w List.mem_cons_self
    | cons v ws =>
      rw [List.intercalate_cons_cons, List.mem_append, List.mem_append, List.mem_singleton]
      rintro ((h | h) | h)
      · exact hws w List.mem_cons_self h
      · exact hbc h
      · exact ih h

theorem codePart_eq_self {line : List Char} (h : ';' ∉ line) : codePart line = line := by
  rw [codePart, List.takeWhile_eq_self_iff]
  intro c hc
  exact bne_iff_ne.2 fun he => h (he ▸ hc)

theorem words_of_notMem {line : List Char} (h : ';' ∉ line) : words line = pieces line := by
  rw [words, codePart_eq_self h]

theorem words_intercalate {b : Char} (hb : isBlank b = true) {ws : List (List Char)}
    (hws : ∀ w ∈ ws, IsWord w) : words ([b].intercalate ws) = ws := by
  have hsemi : ';' ≠ b := by
    rintro rfl
    exact absurd hb (by decide)
  rw [words_of_notMem (notMem_intercalate hsemi fun w hw hc => ((hws w hw).2 _ hc).2 rfl),
    pieces_intercalate hb hws]

/-! ## Runs -/

/-- All characters of a run are of the kind of its first. -/
theorem isBlank_of_mem_run {run : List Char} (hne : run ≠ [])
    (h : run.IsChain fun a b => (isBlank a == isBlank b) = true) :
    ∀ c ∈ run, isBlank c = isBlank (run.head hne) := by
  induction run with
  | nil => exact absurd rfl hne
  | cons a run ih =>
    intro c hc
    cases run with
    | nil => simp_all
    | cons b run =>
      obtain ⟨hab, ht⟩ := List.isChain_cons_cons.1 h
      rcases List.mem_cons.1 hc with rfl | hc
      · rfl
      · rw [ih (List.cons_ne_nil b run) ht c hc]
        exact (beq_iff_eq.1 hab).symm

/-- The runs that are not blank are the pieces, by induction on the runs. -/
theorem filter_runs {runs : List (List Char)} (hne : [] ∉ runs)
    (hrun : ∀ run ∈ runs, run.IsChain fun a b => (isBlank a == isBlank b) = true)
    (hadj : runs.IsChain fun a b =>
      ∃ ha hb, (isBlank (a.getLast ha) == isBlank (b.head hb)) = false) :
    runs.filter (fun run => !run.all isBlank) = pieces runs.flatten := by
  induction runs with
  | nil => simp
  | cons run runs ih =>
    have hn : run ≠ [] := fun h => hne (h ▸ List.mem_cons_self)
    have hsame := isBlank_of_mem_run hn (hrun run List.mem_cons_self)
    have ih := ih (fun h => hne (List.mem_cons_of_mem run h))
      (fun r hr => hrun r (List.mem_cons_of_mem run hr)) hadj.tail
    rw [List.flatten_cons]
    cases hb : isBlank (run.head hn) with
    | true =>
      have hall : ∀ c ∈ run, isBlank c = true := fun c hc => (hsame c hc).trans hb
      rw [List.filter_cons_of_neg (by simpa using hall), pieces_blanks_append hall, ih]
    | false =>
      have hall : ∀ c ∈ run, isBlank c = false := fun c hc => (hsame c hc).trans hb
      have hkeep : (!run.all isBlank) = true := by
        simp only [Bool.not_eq_true', List.all_eq_false]
        exact ⟨run.head hn, List.head_mem hn, by simp [hb]⟩
      rw [List.filter_cons, if_pos hkeep, ih, pieces_word_append hn hall]
      -- the run after a word starts with a blank
      intro c hc
      cases runs with
      | nil => simp at hc
      | cons next runs =>
        obtain ⟨ha, hb', hdiff⟩ := (List.isChain_cons_cons.1 hadj).1
        have hlast := hall (run.getLast ha) (List.getLast_mem ha)
        rw [List.flatten_cons, List.head?_append_of_ne_nil _ hb', List.head?_eq_some_head hb'] at hc
        cases hc
        simpa [hlast] using hdiff

theorem filter_blankRuns (cs : List Char) :
    (blankRuns cs).filter (fun run => !run.all isBlank) = pieces cs := by
  let same (a b : Char) : Bool := isBlank a == isBlank b
  have h := filter_runs (List.nil_notMem_splitBy same cs)
    (fun _ h => List.isChain_of_mem_splitBy h) (List.isChain_getLast_head_splitBy same cs)
  rwa [List.flatten_splitBy] at h

theorem texts_wordsAt (offset : Nat) (line : List Char) :
    (wordsAt offset line).map Word.text = words line := by
  have hf : ∀ xs : List (Nat × List Char),
      (xs.filter fun run => !run.2.all isBlank).map Prod.snd =
        (xs.map Prod.snd).filter fun run => !run.all isBlank := by
    intro xs
    simp [List.filter_map, Function.comp_def]
  rw [words, ← filter_blankRuns, wordsAt, List.map_map]
  exact (hf _).trans (by rw [map_snd_placed])

/-! ## Lines -/

theorem splitOn_eq (sep : Char) (cs : List Char) : Text.splitOn sep cs = cs.splitOn sep := by
  induction cs with
  | nil => rfl
  | cons c cs ih =>
    rw [List.splitOn_cons_eq_if_modifyHead, ← ih]
    by_cases h : c = sep <;> simp [Text.splitOn, Text.splitFirst, Text.consPiece, h]

theorem texts_sourceLines (source : List Char) :
    (sourceLines source).map Line.text = source.splitOn '\n' := by
  have h := map_snd_placed (fun l => Text.width l + 1) 0 (Text.splitOn '\n' source)
  rw [← splitOn_eq, sourceLines, List.map_map]
  conv_rhs => rw [← h, ← List.zipIdx_map_fst 1 (placed _ _ _), List.map_map]
  rfl

theorem pairwise_number_sourceLines (source : List Char) :
    (sourceLines source).Pairwise fun a b => a.number < b.number := by
  apply List.pairwise_map.1
  rw [sourceLines, List.map_map]
  have h := List.zipIdx_map_snd 1 (placed (fun l => Text.width l + 1) 0 (Text.splitOn '\n' source))
  exact h ▸ List.pairwise_lt_range' 1

end Console16
