import Console16.Proofs.Source.Tokenizing

/-!
# Console16.Proofs.Source.Shift

Two texts with a line feed between them. The lines of the second keep their words; their numbers and
the bytes at which they start are those of the second text alone, moved by the lines and the bytes of
the first.

* `Shift.tokens_line`: a line that is moved has the same tokens, moved.
* `sourceLines_append`: the lines of two texts in a row.
-/

namespace Console16

open Text (width)

/-- How far a text is moved down its file. -/
structure Shift where
  lines : Nat
  bytes : Nat

namespace Shift

variable (d : Shift)

def span (s : Span) : Span :=
  ⟨s.offset + d.bytes, s.length⟩

def line (l : Line) : Line :=
  ⟨l.number + d.lines, l.offset + d.bytes, l.text⟩

def word (w : Word) : Word :=
  ⟨w.offset + d.bytes, w.text⟩

def token (t : Token) : Token :=
  { t with span := d.span t.span }

theorem through_span (first last : Span) :
    (d.span first).through (d.span last) = d.span (first.through last) := by
  have hlength : last.offset + d.bytes + last.length - (first.offset + d.bytes) =
      last.offset + last.length - first.offset := by omega
  simp only [span, Span.through, Span.stop, hlength]

/-! ## Words -/

theorem placed_add {α : Type} (size : α → Nat) (start bytes : Nat) (xs : List α) :
    placed size (start + bytes) xs =
      (placed size start xs).map fun entry => (entry.1 + bytes, entry.2) := by
  induction xs generalizing start with
  | nil => rfl
  | cons x xs ih => rw [placed_cons, placed_cons, List.map_cons, Nat.add_right_comm, ih]

theorem wordsAt_add (offset : Nat) (text : List Char) :
    wordsAt (offset + d.bytes) text = (wordsAt offset text).map d.word := by
  unfold wordsAt
  rw [placed_add, List.filter_map, List.map_map, List.map_map]
  rfl

theorem tokens_line (l : Line) : (d.line l).tokens = l.tokens.map d.token := by
  rw [Line.tokens_eq, Line.tokens_eq, tokensAt, tokensAt, line, wordsAt_add, List.map_map,
    List.map_map]
  rfl

/-! ## Lines -/

theorem lines_linesFrom (number offset : Nat) (rows : List (List Char)) :
    linesFrom (number + d.lines) (offset + d.bytes) rows =
      (linesFrom number offset rows).map d.line := by
  induction rows generalizing number offset with
  | nil => rfl
  | cons row rows ih =>
    rw [linesFrom_cons, linesFrom_cons, List.map_cons, Nat.add_right_comm, Nat.add_right_comm offset,
      ih]
    rfl

/-- A text moves by the lines and the bytes of the text before it and of the line feed between. -/
def past (source : List Char) : Shift :=
  ⟨source.count '\n' + 1, width source + 1⟩

end Shift

theorem linesFrom_append (number offset : Nat) (rows below : List (List Char)) :
    linesFrom number offset (rows ++ below) =
      linesFrom number offset rows ++
        linesFrom (number + rows.length) (offset + width (fed rows)) below := by
  induction rows generalizing number offset with
  | nil => rfl
  | cons row rows ih =>
    have hnumber : number + 1 + rows.length = number + (row :: rows).length := by
      rw [List.length_cons]
      omega
    have hoffset : offset + (width row + 1) + width (fed rows) =
        offset + width (fed (row :: rows)) := by
      rw [fed_cons, Text.width_append, Text.width_cons, width_feed]
      omega
    rw [List.cons_append, linesFrom_cons, linesFrom_cons, ih, hnumber, hoffset, List.cons_append]

theorem fed_splitOn (source : List Char) : fed (source.splitOn '\n') = source ++ ['\n'] := by
  obtain ⟨rows, row, hrows⟩ := (source.splitOn '\n').eq_nil_or_concat.resolve_left
    (List.splitOn_ne_nil '\n' source)
  have h := intercalate_append rows row []
  rw [← List.concat_eq_append, ← hrows, List.intercalate_splitOn] at h
  rw [hrows, h, fed]
  simp [fed]

theorem sourceLines_append (source below : List Char) :
    sourceLines (source ++ '\n' :: below) =
      sourceLines source ++ (sourceLines below).map (Shift.past source).line := by
  have hrows := fed_splitOn source
  have hnumber : (source.splitOn '\n').length = source.count '\n' + 1 := by
    rw [← count_fed fun row hrow => notMem_of_mem_splitOn hrow, hrows]
    simp
  have hoffset : width (fed (source.splitOn '\n')) = width source + 1 := by
    rw [hrows]
    simp [width_feed]
  rw [sourceLines_eq, sourceLines_eq, sourceLines_eq, List.splitOn_append_cons_self,
    linesFrom_append, hnumber, hoffset, ← Shift.lines_linesFrom]
  rfl

end Console16
