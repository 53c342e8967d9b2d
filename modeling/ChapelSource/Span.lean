/-!
# Spans of source text

A span is a half-open interval of byte offsets.

* `Span`: an interval whose end does not precede its start.
* `Span.ofBounds`: the span between two offsets, refused when they are out of order.
* `Span.contains`: membership of an offset, the end excluded.
-/

namespace ChapelSource

/-- A half-open interval of byte offsets into a source text. -/
structure Span where
  /-- Offset of the first byte. -/
  start : Nat
  /-- Offset just after the last byte. -/
  stop : Nat
  /-- A span never ends before it starts. -/
  start_le_stop : start ≤ stop
  deriving DecidableEq

/-- The reason why two offsets bound no span. -/
inductive SpanError where
  /-- The end lies before the start. -/
  | outOfOrder
  deriving DecidableEq

/-- The message of a span error. -/
def SpanError.message : SpanError → String
  | .outOfOrder => "assertion failed: end >= pos"

namespace Span

/-- The span between two offsets. -/
def ofBounds (start stop : Nat) : Except SpanError Span :=
  if h : start ≤ stop then .ok ⟨start, stop, h⟩ else .error .outOfOrder

/-- The empty span at an offset. -/
def emptyAt (offset : Nat) : Span := ⟨offset, offset, Nat.le_refl offset⟩

/-- The empty span at the start of the text, held by every node that has no source. -/
def origin : Span := emptyAt 0

/-- The number of bytes in a span. -/
def length (s : Span) : Nat := s.stop - s.start

/-- A span is empty when it holds no byte. -/
def isEmpty (s : Span) : Bool := s.start == s.stop

/-- An offset lies in a span when it is not before its start and is before its end. -/
def contains (s : Span) (offset : Nat) : Bool := s.start ≤ offset && offset < s.stop

/-- A span in writing, its two bounds around two dots. -/
def toText (s : Span) : String := toString s.start ++ ".." ++ toString s.stop

end Span

end ChapelSource
