import Console16.Proofs.Asm.Outline
import Console16.Proofs.Asm.Printing
import Console16.Proofs.Source.Rewrite
import Mathlib.Logic.Equiv.Basic

/-!
# Console16.Proofs.Asm.Renaming

Label names carry no meaning. A text in which every label is renamed, where it is declared and where
it is used, is assembled to the same image, as long as different labels get different names and the
new names are ones that an operand can use. If it is not assembled, its errors are of the same kinds
and on the same lines, although the words, their lengths and so all spans are others.

* `ofWord_renameWord`: a renamed word is of the renamed class.
* `outline_renameLabels`: the renamed text and the text, told with the new names, are one.
* `assembled_renameLabels`: what the renamed text is assembled to.
-/

namespace Console16

/-- A word with the label that it declares or names renamed. -/
def renameWord (f : String → String) (w : List Char) : List Char :=
  match TokenKind.ofWord w with
  | .declaration name => (f name).toList ++ [':']
  | .reference name => (f name).toList
  | _ => w

/-- A text with its labels renamed. -/
def renameLabels (f : String → String) (source : String) : String :=
  .ofList (replaceText (renameWord f) source.toList)

/-! ## Words -/

theorem IsWord.append_colon {w : List Char} (h : IsWord w) : IsWord (w ++ [':']) := by
  refine ⟨by simp, fun c hc => ?_⟩
  rcases List.mem_append.1 hc with hc | hc
  · exact h.2 c hc
  · obtain rfl := List.mem_singleton.1 hc
    decide

section
variable {f : String → String} {w : List Char}
  (h : ∀ name, TokenKind.ofWord w = .declaration name ∨ TokenKind.ofWord w = .reference name →
    IsLabelName (f name).toList)
include h

theorem isWord_renameWord (hw : IsWord w) : IsWord (renameWord f w) := by
  unfold renameWord
  split
  · rename_i name hk
    exact (h name (.inl hk)).1.isWord.append_colon
  · rename_i name hk
    exact (h name (.inr hk)).1.isWord
  · exact hw

theorem ofWord_renameWord (line : Nat → Nat) : TokenKind.ofWord (renameWord f w) =
    (Recast.plain f line).kind (TokenKind.ofWord w) := by
  unfold renameWord
  cases hk : TokenKind.ofWord w with
  | declaration name =>
    rw [TokenKind.ofWord_declaration (h name (.inl hk)).1, String.ofList_toList]
    rfl
  | reference name =>
    rw [TokenKind.ofWord_reference (h name (.inr hk)), String.ofList_toList]
    rfl
  | _ => exact hk

end

/-! ## Lines -/

/-- What is told of the lines of a text, from their numbers and their rows. -/
theorem map_linesFrom {α : Type} (k : Nat → List Char → α) (number offset : Nat)
    (rows : List (List Char)) : (linesFrom number offset rows).map (fun l => k l.number l.text) =
      (rows.zipIdx number).map fun entry => k entry.2 entry.1 := by
  induction rows generalizing number offset with
  | nil => rfl
  | cons row rows ih => rw [linesFrom_cons, List.map_cons, ih, List.zipIdx_cons, List.map_cons]

theorem outline_numbered (f : String → String) (source : List Char) :
    (Recast.plain f id).outline source =
      (((source.splitOn '\n').zipIdx 1).map fun entry =>
        Row.ofKinds entry.2 ((rowKinds entry.1).map (Recast.plain f id).kind)).filter
          fun row => row.tokens ≠ [] := by
  have hrows := map_linesFrom
    (fun number row => Row.ofKinds number ((rowKinds row).map (Recast.plain f id).kind)) 1 0
    (source.splitOn '\n')
  rw [← hrows, Recast.outline, sourceLines_eq]
  simp only [Recast.row_plain, Line.kinds_tokens, id_eq]

theorem mentions_of_word {source : List Char} {row w : List Char} {name : String}
    (hrow : row ∈ source.splitOn '\n') (hw : w ∈ words row)
    (hk : TokenKind.ofWord w = .declaration name ∨ TokenKind.ofWord w = .reference name) :
    Mentions source name := by
  rw [← texts_sourceLines] at hrow
  obtain ⟨l, hl, rfl⟩ := List.mem_map.1 hrow
  have hmem : TokenKind.ofWord w ∈ l.tokens.map Token.kind := by
    rw [Line.kinds_tokens]
    exact List.mem_map_of_mem hw
  obtain ⟨t, ht, hkind⟩ := List.mem_map.1 hmem
  exact ⟨l, hl, t, ht, hkind ▸ hk⟩

/-- The renamed text and the text itself, told with the new names, are one. -/
theorem outline_renameLabels {f : String → String} {source : List Char}
    (hname : ∀ name, Mentions source name → IsLabelName (f name).toList) :
    (Recast.plain id id).outline (replaceText (renameWord f) source) =
      (Recast.plain f id).outline source := by
  have hlabel : ∀ row ∈ source.splitOn '\n', ∀ w ∈ words row, ∀ name,
      TokenKind.ofWord w = .declaration name ∨ TokenKind.ofWord w = .reference name →
        IsLabelName (f name).toList :=
    fun row hrow w hw name hk => hname name (mentions_of_word hrow hw hk)
  have hword : ∀ row ∈ source.splitOn '\n', ∀ w ∈ words row, IsWord (renameWord f w) :=
    fun row hrow w hw => isWord_renameWord (hlabel row hrow w hw) (isWord_of_mem_words hw)
  have hkinds : ∀ row ∈ source.splitOn '\n',
      rowKinds (replaceWords (renameWord f) row) =
        (rowKinds row).map (Recast.plain f id).kind := by
    intro row hrow
    rw [rowKinds, words_replaceWords (hword row hrow), rowKinds, List.map_map, List.map_map]
    exact List.map_congr_left fun w hw => ofWord_renameWord (hlabel row hrow w hw) id
  rw [outline_numbered, outline_numbered, splitOn_replaceText hword, List.zipIdx_map, List.map_map]
  congr 1
  refine List.map_congr_left fun entry hentry => ?_
  have hrow := List.fst_mem_of_mem_zipIdx hentry
  rw [Function.comp_apply, Prod.map_fst, Prod.map_snd, hkinds _ hrow, id_eq,
    funext (Recast.kind_plain_id id), List.map_id']

/-- Labels can be renamed, to names of labels and apart, without a change of what is assembled. -/
theorem assembled_renameLabels {f : String → String} {source : String}
    (hinj : Set.InjOn f {name | Mentions source.toList name})
    (hname : ∀ name, Mentions source.toList name → IsLabelName (f name).toList) :
    assembled (fun e => (e.kind, e.line)) (renameLabels f source) =
      assembled (fun e => (e.kind, e.line)) source := by
  have hview : ∀ (name : String → String) (e : AsmError),
      (((Recast.plain name id).error e).kind, ((Recast.plain name id).error e).line) =
        (e.kind, e.line) := by
    intro name e
    rw [Recast.kind_error]
    cases e <;> rfl
  apply assembled_of_outline (hview id) (hview f) (Set.injOn_id _) hinj
  rw [renameLabels, String.toList_ofList]
  exact outline_renameLabels hname

theorem assembled_renameLabels_of_swap :
    Set.InjOn (Equiv.swap "go" "far") {name | Mentions "go:\n JMPI far ; go\nfar:".toList name} ∧
      (∀ name, Mentions "go:\n JMPI far ; go\nfar:".toList name →
        IsLabelName (Equiv.swap "go" "far" name).toList) ∧
      renameLabels (Equiv.swap "go" "far") "go:\n JMPI far ; go\nfar:" =
        "far:\n JMPI go ; go\ngo:" ∧
      assembled (fun e => (e.kind, e.line)) "far:\n JMPI go ; go\ngo:" =
        assembled (fun e => (e.kind, e.line)) "go:\n JMPI far ; go\nfar:" := by
  have hkinds : (sourceLines "go:\n JMPI far ; go\nfar:".toList).flatMap
      (fun l => l.tokens.map Token.kind) =
      [.declaration "go", .opcode .jmpi, .reference "far", .declaration "far"] := by
    decide +kernel
  have hnames : ∀ name, Mentions "go:\n JMPI far ; go\nfar:".toList name →
      name = "go" ∨ name = "far" := by
    rintro name ⟨l, hl, t, ht, hk⟩
    have hmem : t.kind ∈ [TokenKind.declaration "go", .opcode .jmpi, .reference "far",
        .declaration "far"] := by
      rw [← hkinds]
      exact List.mem_flatMap.2 ⟨l, hl, List.mem_map_of_mem ht⟩
    rcases hk with hk | hk
    · rw [hk] at hmem
      simpa using hmem
    · rw [hk] at hmem
      exact .inr (by simpa using hmem)
  have hinj : Set.InjOn (Equiv.swap "go" "far")
      {name | Mentions "go:\n JMPI far ; go\nfar:".toList name} :=
    (Equiv.injective _).injOn
  have hgo : TokenKind.ofWord "go".toList = .reference "go" := by decide +kernel
  have hfar : TokenKind.ofWord "far".toList = .reference "far" := by decide +kernel
  have hlabel : ∀ name, Mentions "go:\n JMPI far ; go\nfar:".toList name →
      IsLabelName (Equiv.swap "go" "far" name).toList := by
    intro name hname
    rcases hnames name hname with rfl | rfl
    · rw [Equiv.swap_apply_left]
      exact (TokenKind.ofWord_eq_iff.1 hfar).1
    · rw [Equiv.swap_apply_right]
      exact (TokenKind.ofWord_eq_iff.1 hgo).1
  have hrenamed : renameLabels (Equiv.swap "go" "far") "go:\n JMPI far ; go\nfar:" =
      "far:\n JMPI go ; go\ngo:" := by decide +kernel
  exact ⟨hinj, hlabel, hrenamed, hrenamed ▸ assembled_renameLabels hinj hlabel⟩

end Console16
