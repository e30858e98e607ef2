import Console16.Config.Features
import Console16.Proofs.Source.Words
import Console16.Proofs.Text.Trim
import Mathlib.Data.List.Induction

/-!
# Console16.Proofs.Config.FeatureList

Which feature lists are taken, and which piece of a list that is not is named. A list is taken if
every piece is blank or names the one feature there is, and no two pieces name it. Otherwise the
first piece that is unknown, or that names the feature again, is shown as it was written.

* `Features.addPiece_of_names`, `Features.addPiece_of_unknown`: one piece.
* `Features.accepted_or_wrong`: a list is accepted, or has a first piece that is wrong.
* `first_wrong_piece_is_named`: every list.
-/

namespace Console16

open Text (Trimmed trimBlank_eq_iff)

namespace Features

/-- The pieces of a list, with the blanks around them. -/
def listed (text : String) : List (List Char) :=
  text.toList.splitOn ','

def IsIdle (piece : List Char) : Prop :=
  Trimmed piece []

def NamesStrict (piece : List Char) : Prop :=
  Trimmed piece "strict".toList

/-- Pieces that are idle or name the feature; at most one of them names it. -/
structure Accepted (pieces : List (List Char)) : Prop where
  known : ∀ p ∈ pieces, IsIdle p ∨ NamesStrict p
  once : pieces.Pairwise fun p q => ¬(NamesStrict p ∧ NamesStrict q)

/-- What is wrong with a piece that stands behind others. -/
inductive Wrong (before : List (List Char)) (piece : List Char) : FeatureError → Prop where
  | unknown : ¬IsIdle piece → ¬NamesStrict piece →
      Wrong before piece (.unknown (String.ofList piece))
  | repeated : NamesStrict piece → (∃ first ∈ before, NamesStrict first) →
      Wrong before piece (.repeated (String.ofList piece))

instance (piece : List Char) : Decidable (IsIdle piece) :=
  decidable_of_iff _ trimBlank_eq_iff

instance (piece : List Char) : Decidable (NamesStrict piece) :=
  decidable_of_iff _ trimBlank_eq_iff

variable {f : Features} {piece : List Char} {pieces before later : List (List Char)}
variable {e : FeatureError}

/-! ## One piece -/

theorem addPiece_of_idle (h : IsIdle piece) (f : Features) : f.addPiece piece = .ok f := by
  simp only [addPiece, h.trimBlank_eq, if_true]

theorem addPiece_of_names (h : NamesStrict piece) (f : Features) :
    f.addPiece piece =
      if f.strict then .error (.repeated (String.ofList piece)) else .ok ⟨true⟩ := by
  have hne : "strict".toList ≠ [] := by decide
  simp only [addPiece, h.trimBlank_eq, if_neg hne, if_true]

theorem addPiece_of_unknown (hidle : ¬IsIdle piece) (hstrict : ¬NamesStrict piece) (f : Features) :
    f.addPiece piece = .error (.unknown (String.ofList piece)) := by
  rw [addPiece, if_neg (mt trimBlank_eq_iff.1 hidle), if_neg (mt trimBlank_eq_iff.1 hstrict)]

/-! ## Rows of pieces -/

theorem accepted_nil : Accepted [] :=
  ⟨by simp, .nil⟩

theorem Accepted.concat (h : Accepted pieces)
    (hpiece : IsIdle piece ∨ NamesStrict piece ∧ ∀ p ∈ pieces, ¬NamesStrict p) :
    Accepted (pieces ++ [piece]) := by
  constructor
  · intro p hp
    rcases List.mem_append.1 hp with hp | hp
    · exact h.known p hp
    · rw [List.mem_singleton.1 hp]
      exact hpiece.imp_right And.left
  · rw [List.pairwise_append]
    refine ⟨h.once, List.pairwise_singleton _ _, ?_⟩
    intro p hp q hq ⟨hpn, hqn⟩
    rw [List.mem_singleton.1 hq] at hqn
    rcases hpiece with hidle | ⟨-, hnone⟩
    · exact absurd (hidle.trimBlank_eq.symm.trans hqn.trimBlank_eq) (by decide)
    · exact hnone p hp hpn

theorem Accepted.of_append (h : Accepted (before ++ later)) : Accepted before :=
  ⟨fun p hp => h.known p (List.mem_append_left later hp), (List.pairwise_append.1 h.once).1⟩

theorem accepted_or_wrong (pieces : List (List Char)) :
    Accepted pieces ∨
      ∃ before piece later e, pieces = before ++ piece :: later ∧ Accepted before ∧
        Wrong before piece e := by
  induction pieces using List.reverseRecOn with
  | nil => exact .inl accepted_nil
  | append_singleton pieces piece ih =>
    rcases ih with h | ⟨before, p, later, e, rfl, h, hwrong⟩
    · by_cases hidle : IsIdle piece
      · exact .inl (h.concat (.inl hidle))
      by_cases hstrict : NamesStrict piece
      · by_cases hfirst : ∃ first ∈ pieces, NamesStrict first
        · exact .inr ⟨pieces, piece, [], _, rfl, h, .repeated hstrict hfirst⟩
        · push Not at hfirst
          exact .inl (h.concat (.inr ⟨hstrict, hfirst⟩))
      · exact .inr ⟨pieces, piece, [], _, rfl, h, .unknown hidle hstrict⟩
    · exact .inr ⟨before, p, later ++ [piece], e, by simp, h, hwrong⟩

theorem foldlM_addPiece_of_accepted (h : Accepted pieces) :
    ∃ f, pieces.foldlM addPiece none = .ok f ∧
      (f.strict = true ↔ ∃ p ∈ pieces, NamesStrict p) := by
  induction pieces using List.reverseRecOn with
  | nil => exact ⟨none, rfl, by simp [none]⟩
  | append_singleton pieces piece ih =>
    obtain ⟨f, hf, hstrict⟩ := ih h.of_append
    have hfold : (pieces ++ [piece]).foldlM addPiece none = f.addPiece piece := by
      rw [List.foldlM_append, hf]
      exact bind_pure (f.addPiece piece)
    rw [hfold]
    rcases h.known piece (by simp) with hidle | hnames
    · refine ⟨f, addPiece_of_idle hidle f, hstrict.trans ?_⟩
      have hnot : ¬NamesStrict piece := fun hn =>
        absurd (hidle.trimBlank_eq.symm.trans hn.trimBlank_eq) (by decide)
      simp [hnot]
    · have hoff : f.strict = false := by
        rw [← Bool.not_eq_true, hstrict]
        rintro ⟨first, hmem, hfirst⟩
        exact (List.pairwise_append.1 h.once).2.2 first hmem piece (by simp) ⟨hfirst, hnames⟩
      refine ⟨⟨true⟩, ?_, by simp [hnames]⟩
      rw [addPiece_of_names hnames, hoff]
      rfl

/-- Nothing behind the first wrong piece is looked at. -/
theorem foldlM_addPiece_of_wrong (h : Accepted before) (hwrong : Wrong before piece e)
    (later : List (List Char)) : (before ++ piece :: later).foldlM addPiece none = .error e := by
  obtain ⟨f, hf, hstrict⟩ := foldlM_addPiece_of_accepted h
  have hpiece : f.addPiece piece = .error e := by
    cases hwrong with
    | unknown hidle hnames => exact addPiece_of_unknown hidle hnames f
    | repeated hnames hfirst => rw [addPiece_of_names hnames, if_pos (hstrict.2 hfirst)]
  rw [List.foldlM_append, hf]
  change (f.addPiece piece >>= fun g => later.foldlM addPiece g) = .error e
  rw [hpiece]
  rfl

theorem accepted_of_foldlM (hf : pieces.foldlM addPiece none = .ok f) :
    Accepted pieces ∧ (f.strict = true ↔ ∃ p ∈ pieces, NamesStrict p) := by
  rcases accepted_or_wrong pieces with h | ⟨before, piece, later, e, rfl, h, hwrong⟩
  · obtain ⟨g, hg, hstrict⟩ := foldlM_addPiece_of_accepted h
    rw [hf] at hg
    cases hg
    exact ⟨h, hstrict⟩
  · rw [foldlM_addPiece_of_wrong h hwrong] at hf
    cases hf

theorem foldlM_addPiece_eq_error_iff :
    pieces.foldlM addPiece none = .error e ↔
      ∃ before piece later, pieces = before ++ piece :: later ∧ Accepted before ∧
        Wrong before piece e := by
  constructor
  · intro he
    rcases accepted_or_wrong pieces with h | ⟨before, piece, later, e', rfl, h, hwrong⟩
    · obtain ⟨f, hf, -⟩ := foldlM_addPiece_of_accepted h
      rw [hf] at he
      cases he
    · rw [foldlM_addPiece_of_wrong h hwrong] at he
      cases he
      exact ⟨before, piece, later, rfl, h, hwrong⟩
  · rintro ⟨before, piece, later, rfl, h, hwrong⟩
    exact foldlM_addPiece_of_wrong h hwrong later

theorem ofText_eq (text : String) : ofText text = (listed text).foldlM addPiece none := by
  rw [ofText, splitOn_eq, listed]

end Features

open Features in
/-- A feature list is taken exactly if all its pieces are idle or name the feature, one of them at
most, and the feature is on if one does. Otherwise the error shows, as it was written, the first
piece that is unknown or names the feature again. What was taken reads back as it is printed. -/
theorem first_wrong_piece_is_named (text : String) :
    ((∃ f, ofText text = .ok f) ↔
      (∀ p ∈ listed text, IsIdle p ∨ NamesStrict p) ∧
        (listed text).Pairwise fun p q => ¬(NamesStrict p ∧ NamesStrict q)) ∧
    (∀ f, ofText text = .ok f →
      (f.strict = true ↔ ∃ p ∈ listed text, NamesStrict p) ∧
      ofText f.toText = .ok f ∧ (ofText f.toText).map toText = .ok f.toText) ∧
    (∀ e, ofText text = .error e ↔
      ∃ before piece later, listed text = before ++ piece :: later ∧ Accepted before ∧
        Wrong before piece e) ∧
    ∀ piece, (FeatureError.unknown piece).message = "Unknown feature '" ++ piece ++ "'" ∧
      (FeatureError.repeated piece).message = "Cannot specify feature '" ++ piece ++ "' twice" := by
  rw [ofText_eq]
  refine ⟨⟨?_, ?_⟩, ?_, fun e => foldlM_addPiece_eq_error_iff, fun _ => ⟨rfl, rfl⟩⟩
  · rintro ⟨f, hf⟩
    obtain ⟨h, -⟩ := accepted_of_foldlM hf
    exact ⟨h.known, h.once⟩
  · rintro ⟨hknown, honce⟩
    obtain ⟨f, hf, -⟩ := foldlM_addPiece_of_accepted ⟨hknown, honce⟩
    exact ⟨f, hf⟩
  · intro f hf
    exact ⟨(accepted_of_foldlM hf).2, ofText_toText f, by rw [ofText_toText]; rfl⟩

/-- Blanks and empty pieces do not count, and of two errors the one further left is reported. -/
theorem first_wrong_piece_is_named_of_padded :
    (Features.ofText ",\u2003strict\t," = .ok ⟨true⟩ ∧
      ∃ p ∈ Features.listed ",\u2003strict\t,", Features.NamesStrict p) ∧
    Features.ofText "strict,, strict,stack" = .error (.repeated " strict") := by
  have h : Features.ofText ",\u2003strict\t," = .ok ⟨true⟩ := rfl
  obtain ⟨-, htaken, -, -⟩ := first_wrong_piece_is_named ",\u2003strict\t,"
  obtain ⟨-, -, hwrong, -⟩ := first_wrong_piece_is_named "strict,, strict,stack"
  refine ⟨⟨h, (htaken _ h).1.1 rfl⟩, (hwrong _).2 ?_⟩
  refine ⟨["strict".toList, []], " strict".toList, ["stack".toList], by decide, ?_, ?_⟩
  · exact ⟨by decide, by decide⟩
  · exact .repeated (by decide) ⟨"strict".toList, by decide, by decide⟩

end Console16
