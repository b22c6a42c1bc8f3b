/-!
# Spans of source text

A span is the half-open range of byte offsets that a piece of a program takes up in its source.
Offsets are natural numbers of any size. As long as a source has fewer than `2 ^ 32` bytes, they are
the same as words of 32 bits (`offsets_fitWord`).

## Main definitions

* `Span`: a start and a stop offset
* `Span.merge`: the smallest span around two spans
-/

namespace PolyLet

/-- The bytes of a source from `start` up to and without `stop`. A tree that was not read from a
source has the span at zero. -/
structure Span where
  start : Nat := 0
  stop : Nat := 0
  deriving DecidableEq, Repr, Inhabited

namespace Span

/-- The number of bytes of a span. -/
def length (s : Span) : Nat :=
  s.stop - s.start

/-- Whether a span holds no byte. -/
def isEmpty (s : Span) : Bool :=
  s.start = s.stop

/-- The smallest span that holds both spans. -/
def merge (a b : Span) : Span :=
  ⟨min a.start b.start, max a.stop b.stop⟩

/-- The empty span at an offset. -/
def point (offset : Nat) : Span :=
  ⟨offset, offset⟩

end Span

end PolyLet
