import Console16.Proofs.Source.Location

/-!
# Console16.Proofs.Source.Rewrite

A text with its words replaced: each word of a line by another, blanks and comments as they are. As
long as what replaces a word is a word again, the words of the new line are the replaced words, and
the lines of the new text are the new lines.

* `filter_map_blankRuns`: runs that stay blank or not are the runs of what they make up.
* `words_replaceWords`: the words of a line with its words replaced.
* `splitOn_replaceText`: the lines of a text with its words replaced.
-/

namespace Console16

open Text (isBlank)

def replaceRun (g : List Char → List Char) (run : List Char) : List Char :=
  if run.all isBlank then run else g run

/-- A row with each word replaced. -/
def replaceWords (g : List Char → List Char) (row : List Char) : List Char :=
  ((blankRuns (codePart row)).map (replaceRun g)).flatten ++ row.dropWhile (· != ';')

/-- A text with each word replaced, row by row. -/
def replaceText (g : List Char → List Char) (source : List Char) : List Char :=
  ['\n'].intercalate ((source.splitOn '\n').map (replaceWords g))

/-! ## Runs -/

theorem all_isBlank_eq {run : List Char} {b : Bool} (hne : run ≠ [])
    (h : ∀ c ∈ run, isBlank c = b) : run.all isBlank = b := by
  cases b with
  | true => exact List.all_eq_true.2 h
  | false => exact List.all_eq_false.2 ⟨run.head hne, List.head_mem hne, by simp [h]⟩

theorem isBlank_of_mem_blankRuns {cs run : List Char} (h : run ∈ blankRuns cs) :
    run ≠ [] ∧ ∀ c ∈ run, isBlank c = run.all isBlank := by
  have hne : run ≠ [] := fun hnil => List.nil_notMem_splitBy _ cs (hnil ▸ h)
  have hsame := isBlank_of_mem_run hne (List.isChain_of_mem_splitBy h)
  exact ⟨hne, fun c hc => (hsame c hc).trans (all_isBlank_eq hne hsame).symm⟩

theorem subset_of_mem_blankRuns {cs run : List Char} (h : run ∈ blankRuns cs) : run ⊆ cs := by
  intro c hc
  rw [← List.flatten_splitBy (fun a b => isBlank a == isBlank b) cs]
  exact List.mem_flatten_of_mem h hc

theorem mem_words_of_run {row run : List Char} (h : run ∈ blankRuns (codePart row))
    (hrun : run.all isBlank = false) : run ∈ words row := by
  rw [words, ← filter_blankRuns, List.mem_filter]
  exact ⟨h, by simp [hrun]⟩

theorem isWord_of_mem_words {row w : List Char} (h : w ∈ words row) : IsWord w := by
  obtain ⟨hne, hblank⟩ := not_blank_of_mem_pieces h
  rw [words, ← filter_blankRuns, List.mem_filter] at h
  refine ⟨hne, fun c hc => ⟨hblank c hc, ?_⟩⟩
  rintro rfl
  exact semicolon_notMem_codePart row (subset_of_mem_blankRuns h.1 hc)

/-- Blank runs and other runs still take turns when each is replaced by characters of its kind. -/
theorem filter_map_blankRuns {k : List Char → List Char} {cs : List Char}
    (hk : ∀ run ∈ blankRuns cs, k run ≠ [] ∧ ∀ c ∈ k run, isBlank c = run.all isBlank) :
    ((blankRuns cs).map k).filter (fun run => !run.all isBlank) =
      pieces ((blankRuns cs).map k).flatten := by
  apply filter_runs
  · intro h
    obtain ⟨run, hrun, hnil⟩ := List.mem_map.1 h
    exact (hk run hrun).1 hnil
  · intro _ h
    obtain ⟨run, hrun, rfl⟩ := List.mem_map.1 h
    obtain ⟨-, hsame⟩ := hk run hrun
    refine (List.pairwise_of_forall_mem_list fun a ha b hb => ?_).isChain
    rw [hsame a ha, hsame b hb]
    exact beq_self_eq_true _
  · rw [List.isChain_map]
    refine (List.isChain_getLast_head_splitBy _ cs).imp_of_mem_imp fun a b ha hb hdiff => ?_
    obtain ⟨hne, hne', hdiff⟩ := hdiff
    obtain ⟨hka, hsame⟩ := hk a ha
    obtain ⟨hkb, hsame'⟩ := hk b hb
    refine ⟨hka, hkb, ?_⟩
    -- both sides of the cut are of the kind they were of
    rw [hsame _ (List.getLast_mem hka), hsame' _ (List.head_mem hkb),
      ← (isBlank_of_mem_blankRuns ha).2 _ (List.getLast_mem hne),
      ← (isBlank_of_mem_blankRuns hb).2 _ (List.head_mem hne'), hdiff]

/-! ## Rows -/

section
variable {g : List Char → List Char} {row : List Char} (hg : ∀ w ∈ words row, IsWord (g w))
include hg

/-- A blank run stays and any other run is replaced by a word. -/
theorem replaceRun_cases {run : List Char} (h : run ∈ blankRuns (codePart row)) :
    (run.all isBlank = true ∧ replaceRun g run = run) ∨
      (run.all isBlank = false ∧ replaceRun g run = g run ∧ IsWord (g run)) := by
  unfold replaceRun
  cases hrun : run.all isBlank with
  | true => exact .inl ⟨rfl, rfl⟩
  | false => exact .inr ⟨rfl, rfl, hg run (mem_words_of_run h hrun)⟩

theorem isBlank_replaceRun {run : List Char} (h : run ∈ blankRuns (codePart row)) :
    replaceRun g run ≠ [] ∧ ∀ c ∈ replaceRun g run, isBlank c = run.all isBlank := by
  rcases replaceRun_cases hg h with ⟨-, hk⟩ | ⟨hblank, hk, hword⟩
  · rw [hk]
    exact isBlank_of_mem_blankRuns h
  · rw [hk, hblank]
    exact ⟨hword.1, fun c hc => (hword.2 c hc).1⟩

/-- A character that no word has stands in the new code only if it stood in the old. -/
theorem notMem_replaced {c : Char} (hc : c ∉ codePart row) (hword : ∀ w, IsWord w → c ∉ w) :
    c ∉ ((blankRuns (codePart row)).map (replaceRun g)).flatten := by
  intro h
  obtain ⟨_, hmem, hrun⟩ := List.mem_flatten.1 h
  obtain ⟨run, hin, rfl⟩ := List.mem_map.1 hmem
  rcases replaceRun_cases hg hin with ⟨-, hk⟩ | ⟨-, hk, hw⟩
  · rw [hk] at hrun
    exact hc (subset_of_mem_blankRuns hin hrun)
  · rw [hk] at hrun
    exact hword _ hw hrun

theorem codePart_replaceWords : codePart (replaceWords g row) =
    ((blankRuns (codePart row)).map (replaceRun g)).flatten := by
  have hsemi : ';' ∉ ((blankRuns (codePart row)).map (replaceRun g)).flatten :=
    notMem_replaced hg (semicolon_notMem_codePart row) fun w hw hc => (hw.2 ';' hc).2 rfl
  rw [replaceWords]
  cases hrest : row.dropWhile (· != ';') with
  | nil => rw [List.append_nil, codePart_eq_self hsemi]
  | cons c comment =>
    have hc := List.head_dropWhile_not (· != ';') (l := row) (by simp [hrest])
    simp only [hrest, List.head_cons, bne_eq_false_iff_eq] at hc
    rw [hc, codePart_append_comment hsemi]

theorem words_replaceWords : words (replaceWords g row) = (words row).map g := by
  have hkeep : ∀ run ∈ blankRuns (codePart row),
      ((fun run : List Char => !run.all isBlank) ∘ replaceRun g) run = !run.all isBlank := by
    intro run hrun
    obtain ⟨hne, hsame⟩ := isBlank_replaceRun hg hrun
    rw [Function.comp_apply, all_isBlank_eq hne hsame]
  have hwords : (blankRuns (codePart row)).filter (fun run => !run.all isBlank) = words row :=
    filter_blankRuns _
  rw [words, codePart_replaceWords hg,
    ← filter_map_blankRuns fun run hrun => isBlank_replaceRun hg hrun, List.filter_map,
    List.filter_congr hkeep, hwords]
  refine List.map_congr_left fun w hw => ?_
  rw [← hwords, List.mem_filter] at hw
  exact if_neg (by simpa using hw.2)

theorem feed_notMem_replaceWords (h : '\n' ∉ row) : '\n' ∉ replaceWords g row := by
  rw [replaceWords, List.mem_append, not_or]
  constructor
  · refine notMem_replaced hg (fun hc => h ((List.takeWhile_prefix _).subset hc)) fun w hw hc => ?_
    exact absurd (hw.2 '\n' hc).1 (by decide)
  · exact fun hc => h ((List.dropWhile_suffix _).subset hc)

end

/-! ## Texts -/

theorem splitOn_replaceText {g : List Char → List Char} {source : List Char}
    (hg : ∀ row ∈ source.splitOn '\n', ∀ w ∈ words row, IsWord (g w)) :
    (replaceText g source).splitOn '\n' = (source.splitOn '\n').map (replaceWords g) := by
  apply List.splitOn_intercalate
  · intro _ h
    obtain ⟨row, hrow, rfl⟩ := List.mem_map.1 h
    exact feed_notMem_replaceWords (hg row hrow) (notMem_of_mem_splitOn hrow)
  · rw [Ne, List.map_eq_nil_iff]
    exact List.splitOn_ne_nil '\n' source

end Console16
