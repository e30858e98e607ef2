import Console16.Proofs.Asm.Blame
import Console16.Proofs.Asm.Image

/-!
# Console16.Proofs.Asm.Report

The errors of a text, before any label is looked up. A line is bad when its words say nothing or
when it declares a name that an earlier line declares. Reading reports every bad line once, in line
order; the problem it names depends on the words of that line and, for a name declared again, on the
lines that declare it, and on nothing else.

* `Draft.mem_errors_ofLines`: an error is that of a line, given the labels before it.
* `ofSource_reports`: what is reported, and when.
-/

namespace Console16

/-- The line declares a name that an earlier line of the text declares. -/
def Line.Redeclares (source : List Char) (l : Line) (name : String) : Prop :=
  Says (words l.text) (.label name) ∧
    ∃ m ∈ sourceLines source, m.number < l.number ∧ Says (words m.text) (.label name)

/-- The line says nothing, or nothing new. -/
def Line.Bad (source : List Char) (l : Line) : Prop :=
  (∀ r, ¬Says (words l.text) r) ∨ ∃ name, l.Redeclares source name

/-- What is wrong with a line of a text. -/
inductive Line.Wrong (source : List Char) (l : Line) : Problem → Prop where
  | words {before marked after : List (List Char)} {p : Problem} :
      words l.text = before ++ marked ++ after → Blames before marked after p → l.Wrong source p
  | duplicate {name : String} :
      l.Redeclares source name → l.Wrong source (.duplicateLabel name)

/-- A list of errors reports the lines of a text: every bad line once, in line order, with what is
wrong with it. -/
structure Reports (source : List Char) (errors : List AsmError) : Prop where
  ordered : (errors.filterMap AsmError.line).Pairwise (· < ·)
  located : ∀ e ∈ errors, ∃ l ∈ sourceLines source, ∃ p span, e = .located p l.number span
  bad_iff : ∀ l ∈ sourceLines source,
    l.Bad source ↔ ∃ p span, .located p l.number span ∈ errors
  wrong_iff : ∀ l ∈ sourceLines source, ∀ p,
    (∃ span, .located p l.number span ∈ errors) ↔ l.Wrong source p

/-! ## One line -/

namespace Line

theorem item_eq_error_iff {l : Line} {p : Problem} :
    (∃ span, l.item = .error (.located p l.number span)) ↔
      ∃ before marked after, words l.text = before ++ marked ++ after ∧
        Blames before marked after p := by
  rw [← chars_tokens]
  constructor
  · rintro ⟨span, h⟩
    obtain ⟨before, first, rest, after, q, htoks, hb, he⟩ :=
      Item.blamed_of_ofTokens l.honest_tokens h
    cases he
    refine ⟨_, _, _, ?_, hb⟩
    rw [htoks, List.map_append, List.map_append]
  · rintro ⟨before, marked, after, hw, hb⟩
    exact Item.ofTokens_of_blames l.number hb hw l.honest_tokens

theorem located_of_item {l : Line} {e : AsmError} (h : l.item = .error e) :
    ∃ p span, e = .located p l.number span := by
  obtain ⟨-, first, rest, -, p, -, -, rfl⟩ := Item.blamed_of_ofTokens l.honest_tokens h
  exact ⟨p, spanOf first rest, rfl⟩

theorem located_of_error? {l : Line} {labels : LabelTable} {e : AsmError}
    (h : l.error? labels = some e) : ∃ p span, e = .located p l.number span := by
  unfold error? at h
  split at h
  · rename_i e' he
    cases h
    exact located_of_item he
  · split at h
    · cases h
      exact ⟨_, _, rfl⟩
    · cases h
  · cases h

theorem error?_eq_some_iff {l : Line} {labels : LabelTable} {p : Problem} :
    (∃ span, l.error? labels = some (.located p l.number span)) ↔
      (∃ before marked after, words l.text = before ++ marked ++ after ∧
        Blames before marked after p) ∨
      ∃ name, p = .duplicateLabel name ∧ Says (words l.text) (.label name) ∧
        labels.get? name ≠ none := by
  rw [← item_eq_error_iff]
  simp only [← label?_eq_some_iff]
  unfold error? label?
  rcases l.item with e | _ | s | ⟨name, span⟩
  · simp
  · simp
  · simp
  · cases h : labels.get? name with
    | none =>
      simp only [h, Option.isSome_none, Bool.false_eq_true, if_false, reduceCtorEq, exists_false,
        false_or, false_iff]
      rintro ⟨n, -, hn, hold⟩
      cases hn
      exact hold h
    | some offset => simp [h, eq_comm]

end Line

/-! ## The errors of some lines -/

namespace Draft

theorem mem_errors_ofLines {lines : List Line} {e : AsmError} :
    e ∈ (ofLines lines).errors.toList ↔
      ∃ before l after, lines = before ++ l :: after ∧
        l.error? (ofLines before).listing.labels = some e := by
  induction lines using List.reverseRecOn with
  | nil => simp [Draft.empty]
  | append_singleton ls m ih =>
    rw [ofLines_concat, errors_read_eq, List.mem_append, ih, Option.mem_toList]
    constructor
    · rintro (⟨before, l, after, rfl, he⟩ | he)
      · exact ⟨before, l, after ++ [m], by simp, he⟩
      · exact ⟨ls, m, [], rfl, he⟩
    · rintro ⟨before, l, after, hsplit, he⟩
      -- nothing stands after the last line
      rcases List.eq_nil_or_concat after with rfl | ⟨after, k, rfl⟩
      · obtain ⟨rfl, hm⟩ := List.append_inj' hsplit rfl
        cases hm
        exact .inr he
      · rw [List.concat_eq_append, ← List.cons_append, ← List.append_assoc] at hsplit
        obtain ⟨rfl, -⟩ := List.append_inj' hsplit rfl
        exact .inl ⟨before, l, after, rfl, he⟩

/-- Errors come in the order of their lines, at most one for a line. -/
theorem lines_errors_ofLines (lines : List Line) :
    ((ofLines lines).errors.toList.filterMap AsmError.line).Sublist (lines.map Line.number) := by
  induction lines using List.reverseRecOn with
  | nil => exact List.nil_sublist _
  | append_singleton ls l ih =>
    rw [ofLines_concat, errors_read_eq, List.filterMap_append, List.map_append]
    refine ih.append ?_
    cases h : l.error? (ofLines ls).listing.labels with
    | none => exact List.nil_sublist _
    | some e =>
      obtain ⟨p, span, rfl⟩ := Line.located_of_error? h
      exact List.Sublist.refl _

end Draft

/-! ## The errors of a text -/

section
variable {source : List Char} {before after : List Line} {l m : Line}

theorem number_of_split (h : sourceLines source = before ++ l :: after) :
    (∀ m ∈ before, m.number < l.number) ∧ ∀ m ∈ after, l.number < m.number := by
  have hpw := pairwise_number_sourceLines source
  rw [h, List.pairwise_append, List.pairwise_cons] at hpw
  obtain ⟨-, ⟨hafter, -⟩, hbefore⟩ := hpw
  exact ⟨fun m hm => hbefore m hm l List.mem_cons_self, hafter⟩

theorem eq_of_number_eq (hl : l ∈ sourceLines source) (hm : m ∈ sourceLines source)
    (h : l.number = m.number) : l = m := by
  obtain ⟨before, after, hsplit⟩ := List.append_of_mem hl
  obtain ⟨hbefore, hafter⟩ := number_of_split hsplit
  rw [hsplit, List.mem_append, List.mem_cons] at hm
  rcases hm with hm | rfl | hm
  · have := hbefore m hm
    omega
  · rfl
  · have := hafter m hm
    omega

theorem declared_before_iff (h : sourceLines source = before ++ l :: after) {name : String} :
    (Draft.ofLines before).listing.labels.get? name ≠ none ↔
      ∃ m ∈ sourceLines source, m.number < l.number ∧ Says (words m.text) (.label name) := by
  obtain ⟨hbefore, hafter⟩ := number_of_split h
  rw [Ne, Draft.get?_labels_eq_none_iff, not_not, labelsOf, List.mem_filterMap, h]
  simp only [Line.label?_eq_some_iff, List.mem_append, List.mem_cons]
  constructor
  · rintro ⟨m, hm, hsaid⟩
    exact ⟨m, .inl hm, hbefore m hm, hsaid⟩
  · rintro ⟨m, hm | rfl | hm, hlt, hsaid⟩
    · exact ⟨m, hm, hsaid⟩
    · omega
    · have := hafter m hm
      omega

end

theorem Line.bad_iff {source : List Char} {l : Line} :
    l.Bad source ↔ ∃ p, l.Wrong source p := by
  have hsaid : (∀ r, ¬Says (words l.text) r) ↔
      ∃ p before marked after, words l.text = before ++ marked ++ after ∧
        Blames before marked after p := by
    simp only [← item_eq_error_iff, ← taken_iff]
    constructor
    · intro h
      cases hit : l.item with
      | ok it => exact absurd ⟨it, hit, rfl⟩ (h (Item.reading it))
      | error e =>
        obtain ⟨p, span, rfl⟩ := located_of_item hit
        exact ⟨p, span, rfl⟩
    · rintro ⟨p, span, he⟩ r ⟨it, hit, -⟩
      rw [he] at hit
      cases hit
  unfold Line.Bad
  rw [hsaid]
  constructor
  · rintro (⟨p, before, marked, after, hw, hb⟩ | ⟨name, h⟩)
    · exact ⟨p, .words hw hb⟩
    · exact ⟨_, .duplicate h⟩
  · rintro ⟨p, ⟨hw, hb⟩ | h⟩
    · exact .inl ⟨p, _, _, _, hw, hb⟩
    · exact .inr ⟨_, h⟩

theorem mem_errors_iff {source : List Char} {l : Line} (hl : l ∈ sourceLines source)
    {p : Problem} :
    (∃ span, .located p l.number span ∈ (Draft.ofLines (sourceLines source)).errors.toList) ↔
      l.Wrong source p := by
  simp only [Draft.mem_errors_ofLines]
  constructor
  · rintro ⟨span, before, m, after, hsplit, he⟩
    have hm : m ∈ sourceLines source := hsplit ▸ List.mem_append_right before List.mem_cons_self
    obtain ⟨q, span', hq⟩ := Line.located_of_error? he
    injection hq with hp hnumber hspan
    obtain rfl := eq_of_number_eq hl hm hnumber
    rcases Line.error?_eq_some_iff.1 ⟨span, he⟩ with ⟨b, w, a, hw, hb⟩ | ⟨name, rfl, hs, hmem⟩
    · exact .words hw hb
    · exact .duplicate ⟨hs, (declared_before_iff hsplit).1 hmem⟩
  · intro h
    obtain ⟨before, after, hsplit⟩ := List.append_of_mem hl
    have herr : ∃ span, l.error? (Draft.ofLines before).listing.labels =
        some (.located p l.number span) := by
      rw [Line.error?_eq_some_iff]
      rcases h with ⟨hw, hb⟩ | ⟨hs, hearlier⟩
      · exact .inl ⟨_, _, _, hw, hb⟩
      · exact .inr ⟨_, rfl, hs, (declared_before_iff hsplit).2 hearlier⟩
    obtain ⟨span, he⟩ := herr
    exact ⟨span, before, l, after, hsplit, he⟩

theorem reports_ofLines (source : List Char) :
    Reports source (Draft.ofLines (sourceLines source)).errors.toList where
  ordered := by
    have h := Draft.lines_errors_ofLines (sourceLines source)
    exact (List.pairwise_map.2 (pairwise_number_sourceLines source)).sublist h
  located e he := by
    obtain ⟨before, l, after, hsplit, he⟩ := Draft.mem_errors_ofLines.1 he
    exact ⟨l, hsplit ▸ List.mem_append_right before List.mem_cons_self, Line.located_of_error? he⟩
  bad_iff l hl := by
    simp only [mem_errors_iff hl]
    exact Line.bad_iff
  wrong_iff l hl p := mem_errors_iff hl

theorem Listing.ofSource_eq_error_iff {source : List Char} {errors : List AsmError} :
    ofSource source = .error errors ↔
      errors = (Draft.ofLines (sourceLines source)).errors.toList ∧ errors ≠ [] := by
  unfold ofSource
  simp only [Array.isEmpty_iff]
  split
  · rename_i h
    simp [h]
  · rename_i h
    constructor
    · intro he
      cases he
      exact ⟨rfl, by simpa using h⟩
    · rintro ⟨rfl, -⟩
      rfl

/-- A text is refused exactly when it has a bad line, and then every bad line is reported. -/
theorem ofSource_reports (source : List Char) :
    ((∃ errors, Listing.ofSource source = .error errors) ↔
      ∃ l ∈ sourceLines source, l.Bad source) ∧
    ∀ errors, Listing.ofSource source = .error errors → Reports source errors := by
  have hreports := reports_ofLines source
  simp only [Listing.ofSource_eq_error_iff]
  refine ⟨⟨?_, ?_⟩, ?_⟩
  · rintro ⟨errors, rfl, hne⟩
    obtain ⟨e, he⟩ := List.exists_mem_of_ne_nil _ hne
    obtain ⟨l, hl, p, span, rfl⟩ := hreports.located e he
    exact ⟨l, hl, (hreports.bad_iff l hl).2 ⟨p, span, he⟩⟩
  · rintro ⟨l, hl, hbad⟩
    obtain ⟨p, span, he⟩ := (hreports.bad_iff l hl).1 hbad
    exact ⟨_, rfl, List.ne_nil_of_mem he⟩
  · rintro errors ⟨rfl, -⟩
    exact hreports

end Console16
