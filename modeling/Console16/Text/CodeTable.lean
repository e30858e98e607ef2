import Console16.Text.Hex

/-!
# Console16.Text.CodeTable

Tables of code points by ranges. A table is written as the ranges of each value, in hexadecimal and
separated by spaces, such as `"41-5a 5f 61-7a"`, and looked up by halving.

* `CodeTable.find?`: the value of a character, if a range has it.
-/

namespace Console16.Text

/-- A closed range of code points and what they have in common. -/
structure CodeRange (α : Type) where
  first : Nat
  last : Nat
  value : α

namespace CodeRange

/-- The number some hexadecimal digits stand for. -/
def ofDigits (digits : String.Slice) : Nat :=
  digits.chars.fold (fun n c => 16 * n + Hex.value c) 0

/-- A range as it is written: one code point, or the first and the last. -/
def ofText {α : Type} (value : α) (text : String.Slice) : CodeRange α :=
  match (text.split '-').toList.map ofDigits with
  | [first, last] => ⟨first, last, value⟩
  | ends => ⟨ends.headD 0, ends.headD 0, value⟩

end CodeRange

/-- Ranges that do not overlap, in order. -/
structure CodeTable (α : Type) where
  ranges : Array (CodeRange α)

namespace CodeTable

/-- The ranges some lines list. -/
def rangesOf {α : Type} (value : α) (lines : List String) : List (CodeRange α) :=
  lines.flatMap fun line => (line.split ' ').toList.map (CodeRange.ofText value)

def ofLines {α : Type} (rows : List (α × List String)) : CodeTable α :=
  ⟨((rows.flatMap fun row => rangesOf row.1 row.2).mergeSort
    fun a b => decide (a.first ≤ b.first)).toArray⟩

/-- The value of a code point, looked for in the ranges from `lo` up to `hi`. -/
def search {α : Type} (t : CodeTable α) (code lo hi : Nat) : Option α :=
  if lo < hi then
    let mid := lo + (hi - lo) / 2
    match t.ranges[mid]? with
    | none => none
    | some range =>
      if code < range.first then search t code lo mid
      else if range.last < code then search t code (mid + 1) hi
      else some range.value
  else none
termination_by hi - lo

def find? {α : Type} (t : CodeTable α) (c : Char) : Option α :=
  t.search c.toNat 0 t.ranges.size

end CodeTable
end Console16.Text
