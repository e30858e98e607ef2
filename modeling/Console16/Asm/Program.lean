import Console16.Asm.Error
import Console16.Asm.Listing

/-!
# Console16.Asm.Program

A listing with every label operand replaced by the label's offset, and its image. Resolution fails
with every operand that names no label, in statement order, and then with the size of the image if
it exceeds the memory.

* `Listing.resolve`: one pass over the statements, which goes on after an error.
* `Program.image`: the output, statement by statement.
-/

namespace Console16

structure Program where
  stmts : List (Stmt UInt16)
  labels : LabelTable
  byteLen : Nat

/-- The offset an operand stands for. Only the low 16 bits of a label's offset count. -/
def Target.resolve (labels : LabelTable) : Target → Except AsmError UInt16
  | .value v => .ok v
  | .label ref =>
    match labels.get? ref.name with
    | some offset => .ok (UInt16.ofNat offset)
    | none => .error (.located (.unresolvedLabel ref.name) ref.line ref.span)

/-- A statement with its label operand replaced. -/
def Stmt.resolve (labels : LabelTable) : Stmt Target → Except AsmError (Stmt UInt16)
  | .instr line op operands => (operands.tryMap (·.resolve labels)).map (.instr line op)
  | .data line bytes => .ok (.data line bytes)

/-- What resolution has come to after some statements. -/
structure Patched where
  stmts : Array (Stmt UInt16)
  errors : Array AsmError

namespace Patched

def empty : Patched := ⟨#[], #[]⟩

/-- Resolves one statement more. An operand that names no label is an error and stops nothing. -/
def patch (labels : LabelTable) (p : Patched) (s : Stmt Target) : Patched :=
  match s.resolve labels with
  | .ok t => { p with stmts := p.stmts.push t }
  | .error e => { p with errors := p.errors.push e }

end Patched

/-- The program of a listing, or everything that keeps it from being one. -/
def Listing.resolve (l : Listing) : Except (List AsmError) Program :=
  let patched := l.stmts.foldl (Patched.patch l.labels) .empty
  let errors :=
    if maxImage < l.byteLen then patched.errors.push (.outputTooLarge l.byteLen)
    else patched.errors
  if errors.isEmpty then .ok ⟨patched.stmts.toList, l.labels, l.byteLen⟩ else .error errors.toList

/-- The output filled up with zeros to the next multiple of the instruction size. -/
def filled (out : Array UInt8) : Array UInt8 :=
  out ++ List.replicate (alignUp out.size - out.size) (0 : UInt8)

/-- The output after one more statement. Behind data it is filled up as a whole. -/
def Stmt.emit (out : Array UInt8) : Stmt UInt16 → Array UInt8
  | .instr _ op operands => out ++ (encode op operands).toList
  | .data _ bytes => filled (out ++ bytes)

/-- The image: what the statements put out, one after the other. -/
def Program.image (p : Program) : List UInt8 :=
  (p.stmts.foldl Stmt.emit #[]).toList

end Console16
