/-!
# Spans

A span is a range of byte offsets into a statement's text.  Offsets are held in
32 bits: one past the last offset that fits is clamped to it.
-/

namespace SelectPlan

/-- The byte range from `start` up to, not including, `stop`. -/
structure Span where
  start : Nat
  stop : Nat
  deriving DecidableEq, Repr

namespace Span

/-- The largest offset a span can hold. -/
def lastOffset : Nat := 4294967295

/-- The span between two byte offsets of a text, each clamped to the largest
offset a span can hold. -/
def ofOffsets (start stop : Nat) : Span :=
  ⟨min start lastOffset, min stop lastOffset⟩

/-- The smallest span that covers both. -/
def merge (first second : Span) : Span :=
  ⟨min first.start second.start, max first.stop second.stop⟩

/-- The text `start..stop`. -/
def render (span : Span) : String :=
  toString span.start ++ ".." ++ toString span.stop

end Span

end SelectPlan
