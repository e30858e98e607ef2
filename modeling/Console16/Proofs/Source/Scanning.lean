import Console16.Proofs.Source.Rewrite
import Mathlib.Data.List.Sort

/-!
# Console16.Proofs.Source.Scanning

A line read word by word. Blanks are passed over, a word is taken up to the next blank or semicolon,
and reading ends with the line or at a semicolon. What is taken this way are the runs that cannot be
made longer, and they are the words of the line; no other character ends a word, nor does a zero.

* `scans_wordsAt`: reading comes to an end, with the words of the line.
* `Scans.mem_iff`: a word is read exactly if it is a maximal run of the code of the line.
* `Scans.map`: reading does not look at characters beyond their kind and their bytes.
-/

namespace Console16

open Text (isBlank width)

/-- No word goes on here: a blank or a semicolon comes next, or nothing. -/
def EndsWord (rest : List Char) : Prop :=
  ∀ c ∈ rest.head?, isBlank c = true ∨ c = ';'

/-- Reading a line from byte `offset` on takes these words. -/
inductive Scans : Nat → List Char → List Word → Prop where
  | finish {offset : Nat} : Scans offset [] []
  | comment {offset : Nat} {text : List Char} : Scans offset (';' :: text) []
  | blank {offset : Nat} {c : Char} {rest : List Char} {ws : List Word} :
      isBlank c = true → Scans (offset + c.utf8Size) rest ws → Scans offset (c :: rest) ws
  | word {offset : Nat} {w rest : List Char} {ws : List Word} :
      IsWord w → EndsWord rest → Scans (offset + width w) rest ws →
      Scans offset (w ++ rest) (⟨offset, w⟩ :: ws)

/-- A run of the code of a line that neither a blank nor a semicolon interrupts and that cannot be
made longer on either side. -/
structure MaximalRun (line before run after : List Char) : Prop where
  split : line = before ++ run ++ after
  isWord : IsWord run
  code : ';' ∉ before
  left : ∀ c ∈ before.getLast?, isBlank c = true
  right : EndsWord after

variable {offset : Nat} {line before run after w rest : List Char} {c : Char} {ws vs : List Word}

/-! ## Maximal runs -/

theorem IsWord.not_blank (h : IsWord w) (hc : c ∈ w) : isBlank c = false :=
  (h.2 c hc).1

theorem IsWord.not_endsWord (h : IsWord w) (rest : List Char) : ¬EndsWord (w ++ rest) := by
  intro hends
  obtain ⟨d, w, rfl⟩ := List.exists_cons_of_ne_nil h.1
  obtain ⟨hblank, hsemi⟩ := h.2 d List.mem_cons_self
  rcases hends d rfl with hd | hd
  · rw [hblank] at hd
    cases hd
  · exact hsemi hd

theorem not_maximalRun_of_endsWord (hends : EndsWord line) : ¬MaximalRun line [] run after := by
  intro h
  rw [h.split] at hends
  exact h.isWord.not_endsWord after hends

theorem not_maximalRun_nil : ¬MaximalRun [] before run after := by
  intro h
  have hsplit := h.split.symm
  rw [List.append_eq_nil_iff, List.append_eq_nil_iff] at hsplit
  exact h.isWord.1 hsplit.1.2

theorem not_maximalRun_comment {text : List Char} :
    ¬MaximalRun (';' :: text) before run after := by
  intro h
  cases before with
  | nil => exact not_maximalRun_of_endsWord (fun c hc => .inr (by simpa using hc.symm)) h
  | cons b before =>
    obtain ⟨rfl, -⟩ := List.cons_eq_cons.1 h.split
    exact h.code List.mem_cons_self

theorem maximalRun_blank_iff (hc : isBlank c = true) :
    MaximalRun (c :: rest) before run after ↔
      ∃ b, before = c :: b ∧ MaximalRun rest b run after := by
  constructor
  · intro h
    cases before with
    | nil =>
      refine absurd h (not_maximalRun_of_endsWord fun d hd => ?_)
      obtain rfl : c = d := by simpa using hd
      exact .inl hc
    | cons d b =>
      obtain ⟨rfl, hsplit⟩ := List.cons_eq_cons.1 h.split
      refine ⟨b, rfl, hsplit, h.isWord, fun hm => h.code (List.mem_cons_of_mem c hm), ?_, h.right⟩
      intro d hd
      exact h.left d (List.mem_getLast?_cons hd)
  · rintro ⟨b, rfl, h⟩
    refine ⟨by rw [h.split]; rfl, h.isWord, ?_, ?_, h.right⟩
    · intro hm
      rcases List.mem_cons.1 hm with hsemi | hm
      · rw [← hsemi] at hc
        exact absurd hc (by decide)
      · exact h.code hm
    · intro d hd
      cases b with
      | nil =>
        obtain rfl : c = d := by simpa using hd
        exact hc
      | cons e b => exact h.left d (by simpa [List.getLast?_cons_cons] using hd)

/-- Where a word ends, no other word starts. -/
theorem MaximalRun.before_ne_nil (h : MaximalRun rest before run after) (hends : EndsWord rest) :
    before ≠ [] := by
  rintro rfl
  exact not_maximalRun_of_endsWord hends h

theorem IsWord.eq_nil_of_endsWord {v x : List Char} (h : IsWord (v ++ x))
    (hends : EndsWord (x ++ rest)) : x = [] := by
  by_contra hne
  have hx : IsWord x := ⟨hne, fun c hc => h.2 c (List.mem_append_right v hc)⟩
  exact hx.not_endsWord rest hends

theorem eq_of_word_append {v : List Char} (hv : IsWord v) (hw : IsWord w) (hafter : EndsWord after)
    (hrest : EndsWord rest) (h : v ++ after = w ++ rest) : v = w ∧ after = rest := by
  rcases List.append_eq_append_iff.1 h with ⟨x, rfl, rfl⟩ | ⟨x, rfl, rfl⟩
  · obtain rfl := hw.eq_nil_of_endsWord hafter
    simp
  · obtain rfl := hv.eq_nil_of_endsWord hrest
    simp

theorem maximalRun_word_iff (hw : IsWord w) (hends : EndsWord rest) :
    MaximalRun (w ++ rest) before run after ↔
      (before = [] ∧ run = w ∧ after = rest) ∨
        ∃ b, before = w ++ b ∧ MaximalRun rest b run after := by
  constructor
  · intro h
    have hsplit := h.split
    rw [List.append_assoc] at hsplit
    rcases List.append_eq_append_iff.1 hsplit with ⟨b, rfl, hrest⟩ | ⟨x, rfl, hx⟩
    · rw [← List.append_assoc] at hrest
      right
      refine ⟨b, rfl, hrest, h.isWord, fun hm => h.code (List.mem_append_right w hm), ?_, h.right⟩
      intro d hd
      exact h.left d (List.mem_getLast?_append_of_mem_getLast? hd)
    · -- a run that starts inside the word would have a character of it on its left
      obtain rfl : before = [] := by
        by_contra hne
        have hlast := h.left _ (List.getLast?_eq_some_getLast hne)
        rw [hw.not_blank (List.mem_append_left x (List.getLast_mem hne))] at hlast
        cases hlast
      obtain ⟨rfl, rfl⟩ := eq_of_word_append h.isWord hw h.right hends hsplit.symm
      exact .inl ⟨rfl, rfl, rfl⟩
  · rintro (⟨rfl, rfl, rfl⟩ | ⟨b, rfl, h⟩)
    · exact ⟨rfl, hw, List.not_mem_nil, nofun, hends⟩
    · refine ⟨by rw [h.split]; simp only [List.append_assoc], h.isWord, ?_, ?_, h.right⟩
      · intro hm
        rcases List.mem_append.1 hm with hm | hm
        · exact (hw.2 ';' hm).2 rfl
        · exact h.code hm
      · intro d hd
        rw [List.getLast?_append_of_ne_nil w (h.before_ne_nil hends)] at hd
        exact h.left d hd

/-! ## What is read -/

theorem width_pos (h : w ≠ []) : 0 < width w :=
  Nat.pos_of_ne_zero fun hzero => h (Text.eq_nil_of_width hzero)

namespace Scans

theorem mem_iff (h : Scans offset line ws) {v : Word} :
    v ∈ ws ↔ ∃ before after, MaximalRun line before v.text after ∧
      v.offset = offset + width before := by
  induction h with
  | finish => simp [not_maximalRun_nil]
  | comment => simp [not_maximalRun_comment]
  | blank hc _ ih =>
    rw [ih]
    constructor
    · rintro ⟨b, after, hrun, hv⟩
      refine ⟨_, after, (maximalRun_blank_iff hc).2 ⟨b, rfl, hrun⟩, ?_⟩
      rw [hv, Text.width_cons, Nat.add_assoc]
    · rintro ⟨before, after, hrun, hv⟩
      obtain ⟨b, rfl, hrest⟩ := (maximalRun_blank_iff hc).1 hrun
      exact ⟨b, after, hrest, by rw [hv, Text.width_cons, Nat.add_assoc]⟩
  | @word offset w rest ws hw hends _ ih =>
    rw [List.mem_cons, ih]
    constructor
    · rintro (rfl | ⟨b, after, hrun, hv⟩)
      · exact ⟨[], rest, (maximalRun_word_iff hw hends).2 (.inl ⟨rfl, rfl, rfl⟩), rfl⟩
      · refine ⟨_, after, (maximalRun_word_iff hw hends).2 (.inr ⟨b, rfl, hrun⟩), ?_⟩
        rw [hv, Text.width_append, Nat.add_assoc]
    · rintro ⟨before, after, hrun, hv⟩
      rcases (maximalRun_word_iff hw hends).1 hrun with ⟨rfl, htext, rfl⟩ | ⟨b, rfl, hrest⟩
      · obtain ⟨start, text⟩ := v
        obtain rfl : text = w := htext
        obtain rfl : start = offset := hv
        exact .inl rfl
      · exact .inr ⟨b, after, hrest, by rw [hv, Text.width_append, Nat.add_assoc]⟩

/-- Between two words there is a blank at least. -/
theorem pairwise (h : Scans offset line ws) : ws.Pairwise fun a b => a.span.stop < b.offset := by
  induction h with
  | finish => exact .nil
  | comment => exact .nil
  | blank _ _ ih => exact ih
  | @word offset w rest ws hw hends hrest ih =>
    refine List.pairwise_cons.2 ⟨fun v hv => ?_, ih⟩
    obtain ⟨b, after, hrun, hoffset⟩ := hrest.mem_iff.1 hv
    have hpos := width_pos (hrun.before_ne_nil hends)
    rw [hoffset]
    simp only [Word.span, Span.stop]
    omega

theorem unique (h : Scans offset line ws) (h' : Scans offset line vs) : ws = vs := by
  have hasymm : Std.Asymm fun a b : Word => a.span.stop < b.offset := by
    constructor
    intro a b hab hba
    simp only [Word.span, Span.stop] at hab hba
    omega
  exact h.pairwise.eq_of_mem_iff h'.pairwise fun v => h.mem_iff.trans h'.mem_iff.symm

/-- Every character of the code that is not blank is in a word. -/
theorem covers (h : Scans offset line ws) (hline : line = before ++ c :: after)
    (hcode : ';' ∉ before) (hblank : isBlank c = false) (hsemi : c ≠ ';') :
    ∃ v ∈ ws, c ∈ v.text ∧ v.offset ≤ offset + width before ∧
      offset + width before < v.span.stop := by
  induction h generalizing before with
  | finish => simp at hline
  | comment =>
    cases before with
    | nil => exact absurd (List.cons_eq_cons.1 hline).1.symm hsemi
    | cons b before =>
      obtain ⟨rfl, -⟩ := List.cons_eq_cons.1 hline
      exact absurd List.mem_cons_self hcode
  | blank hc _ ih =>
    cases before with
    | nil =>
      rw [(List.cons_eq_cons.1 hline).1, hblank] at hc
      cases hc
    | cons b before =>
      obtain ⟨rfl, hrest⟩ := List.cons_eq_cons.1 hline
      have hfound := ih hrest fun hm => hcode (List.mem_cons_of_mem _ hm)
      rwa [Nat.add_assoc, ← Text.width_cons] at hfound
  | @word offset w rest ws hw hends _ ih =>
    rcases List.append_eq_append_iff.1 hline with ⟨b, rfl, hrest⟩ | ⟨x, rfl, hx⟩
    · obtain ⟨v, hv, hfound⟩ := ih hrest fun hm => hcode (List.mem_append_right w hm)
      rw [Nat.add_assoc, ← Text.width_append] at hfound
      exact ⟨v, List.mem_cons_of_mem _ hv, hfound⟩
    · cases x with
      | nil =>
        -- the character would be the first after a word
        obtain rfl : c :: after = rest := hx
        rcases hends c rfl with hc | hc
        · rw [hblank] at hc
          cases hc
        · exact absurd hc hsemi
      | cons d x =>
        obtain ⟨rfl, -⟩ := List.cons_eq_cons.1 hx
        refine ⟨_, List.mem_cons_self, by simp, Nat.le_add_right _ _, ?_⟩
        have hpos := c.utf8Size_pos
        simp only [Word.span, Span.stop, Text.width_append, Text.width_cons]
        omega

end Scans

/-! ## Characters -/

/-- One character can stand for the other: both are blank or both are not, both are a semicolon or
both are not, and they take as many bytes. -/
structure StandsFor (d c : Char) : Prop where
  blank : isBlank d = isBlank c
  semicolon : d = ';' ↔ c = ';'
  size : d.utf8Size = c.utf8Size

section
variable {f : Char → Char} (hf : ∀ c, StandsFor (f c) c)
include hf

theorem width_map (cs : List Char) : width (cs.map f) = width cs := by
  induction cs with
  | nil => rfl
  | cons c cs ih => rw [List.map_cons, Text.width_cons, Text.width_cons, ih, (hf c).size]

theorem IsWord.map (h : IsWord w) : IsWord (w.map f) := by
  refine ⟨fun hnil => h.1 (List.map_eq_nil_iff.1 hnil), fun d hd => ?_⟩
  obtain ⟨c, hc, rfl⟩ := List.mem_map.1 hd
  rw [(hf c).blank, ne_eq, (hf c).semicolon]
  exact h.2 c hc

theorem EndsWord.map (h : EndsWord rest) : EndsWord (rest.map f) := by
  intro d hd
  cases rest with
  | nil => cases hd
  | cons c rest =>
    obtain rfl : f c = d := by simpa using hd
    rw [(hf c).blank, (hf c).semicolon]
    exact h c rfl

theorem Scans.map (h : Scans offset line ws) :
    Scans offset (line.map f) (ws.map fun w => ⟨w.offset, w.text.map f⟩) := by
  induction h with
  | finish => exact .finish
  | comment =>
    have hsemi : f ';' = ';' := (hf ';').semicolon.2 rfl
    rw [List.map_cons, hsemi]
    exact .comment
  | @blank offset c rest ws hc _ ih =>
    rw [← (hf c).size] at ih
    exact .blank ((hf c).blank.trans hc) ih
  | @word offset w rest ws hw hends _ ih =>
    rw [← width_map hf w] at ih
    rw [List.map_append]
    exact .word (hw.map hf) (hends.map hf) ih

end

/-! ## Reading to the end -/

theorem Scans.blanks {bs : List Char} (hb : ∀ c ∈ bs, isBlank c = true)
    (h : Scans (offset + width bs) line ws) : Scans offset (bs ++ line) ws := by
  induction bs generalizing offset with
  | nil => exact h
  | cons b bs ih =>
    refine .blank (hb b List.mem_cons_self) (ih (fun c hc => hb c (List.mem_cons_of_mem b hc)) ?_)
    rwa [Text.width_cons, ← Nat.add_assoc] at h

/-- Runs that are blank or not in turn, and a comment behind them, are read run by run. -/
theorem scans_runWords {runs : List (List Char)} {comment : List Char}
    (hrun : ∀ run ∈ runs, run ≠ [] ∧ (∀ c ∈ run, isBlank c = run.all isBlank) ∧ ';' ∉ run)
    (hadj : runs.IsChain fun a b =>
      ∃ ha hb, (isBlank (a.getLast ha) == isBlank (b.head hb)) = false)
    (hcomment : comment = [] ∨ ∃ text, comment = ';' :: text) (offset : Nat) :
    Scans offset (runs.flatten ++ comment) (runWords offset runs) := by
  induction runs generalizing offset with
  | nil =>
    rcases hcomment with rfl | ⟨text, rfl⟩
    · exact .finish
    · exact .comment
  | cons run runs ih =>
    obtain ⟨hne, hsame, hsemi⟩ := hrun run List.mem_cons_self
    have ih := ih (fun r hr => hrun r (List.mem_cons_of_mem run hr)) hadj.tail
      (offset + width run)
    rw [List.flatten_cons, List.append_assoc, runWords_cons]
    cases hall : run.all isBlank with
    | true =>
      rw [hall] at hsame
      exact ih.blanks hsame
    | false =>
      rw [hall] at hsame
      refine .word ⟨hne, fun c hc => ⟨hsame c hc, fun he => hsemi (he ▸ hc)⟩⟩ ?_ ih
      -- behind the word the comment starts, or a run of the other kind
      intro c hc
      cases runs with
      | nil =>
        rcases hcomment with rfl | ⟨text, rfl⟩
        · cases hc
        · exact .inr (by simpa using hc.symm)
      | cons next runs =>
        obtain ⟨ha, hb, hdiff⟩ := (List.isChain_cons_cons.1 hadj).1
        rw [List.flatten_cons, List.append_assoc, List.head?_append_of_ne_nil _ hb,
          List.head?_eq_some_head hb] at hc
        cases hc
        rw [hsame _ (List.getLast_mem ha)] at hdiff
        exact .inl (by simpa using hdiff)

theorem scans_wordsAt (offset : Nat) (line : List Char) :
    Scans offset line (wordsAt offset line) := by
  have hrun : ∀ run ∈ blankRuns (codePart line),
      run ≠ [] ∧ (∀ c ∈ run, isBlank c = run.all isBlank) ∧ ';' ∉ run := by
    intro run hmem
    obtain ⟨hne, hsame⟩ := isBlank_of_mem_blankRuns hmem
    exact ⟨hne, hsame, fun hs => semicolon_notMem_codePart line (subset_of_mem_blankRuns hmem hs)⟩
  have hadj := List.isChain_getLast_head_splitBy (fun a b => isBlank a == isBlank b) (codePart line)
  have hflat : (blankRuns (codePart line)).flatten = codePart line := List.flatten_splitBy _ _
  rcases line_eq line with hline | ⟨comment, hline⟩
  · have h := scans_runWords hrun hadj (.inl rfl) offset
    rwa [hflat, List.append_nil, ← wordsAt_eq, ← hline] at h
  · have h := scans_runWords hrun hadj (.inr ⟨comment, rfl⟩) offset
    rwa [hflat, ← wordsAt_eq, ← hline] at h

theorem scans_iff : Scans offset line ws ↔ ws = wordsAt offset line := by
  constructor
  · intro h
    exact h.unique (scans_wordsAt offset line)
  · rintro rfl
    exact scans_wordsAt offset line

end Console16
