/-!
# Console16.Source.Span

A stretch of source text, in UTF-8 bytes from its start.
-/

namespace Console16

structure Span where
  offset : Nat
  length : Nat
  deriving DecidableEq, Repr

namespace Span

def stop (s : Span) : Nat :=
  s.offset + s.length

def isEmpty (s : Span) : Bool :=
  s.length == 0

/-- The stretch from the start of one to the end of another. -/
def through (first last : Span) : Span :=
  ⟨first.offset, last.stop - first.offset⟩

end Span
end Console16
