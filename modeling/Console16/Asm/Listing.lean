import Console16.Asm.LabelTable
import Console16.Asm.Stmt

/-!
# Console16.Asm.Listing

Statements laid end to end, with the labels declared among them. Label operands are still names: a
label may be used before its declaration.

* `Listing.byteLen_add`: the image grows by the statement added.
* `Listing.declare?_eq_none_iff`: only a second declaration of a name is refused.
-/

namespace Console16

structure Listing where
  stmts : Array (Stmt Target)
  labels : LabelTable
  /-- The bytes the statements take in the image. -/
  byteLen : Nat

namespace Listing

def empty : Listing := ⟨#[], .empty, 0⟩

def add (l : Listing) (s : Stmt Target) : Listing :=
  { l with stmts := l.stmts.push s, byteLen := l.byteLen + s.byteLen }

/-- Declares a label at the current end of the image; `none` if it is declared already. -/
def declare? (l : Listing) (name : String) : Option Listing :=
  (l.labels.insert? name l.byteLen).map fun labels => { l with labels }

@[simp] theorem byteLen_add (l : Listing) (s : Stmt Target) :
    (l.add s).byteLen = l.byteLen + s.byteLen := rfl

@[simp] theorem toList_stmts_add (l : Listing) (s : Stmt Target) :
    (l.add s).stmts.toList = l.stmts.toList ++ [s] := by
  simp [add]

theorem declare?_eq_none_iff {l : Listing} {name : String} :
    l.declare? name = none ↔ (l.labels.get? name).isSome := by
  simp [declare?, LabelTable.insert?_eq_none_iff]

end Listing
end Console16
