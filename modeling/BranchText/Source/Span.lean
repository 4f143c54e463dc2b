/-!
# Spans

A span is a range of byte offsets into the UTF-8 text of a source document. Every node a reader
builds carries the span of the text it was read from.
-/

namespace BranchText

/-- The half-open range of byte offsets from `start` up to `stop`. -/
structure Span where
  start : Nat
  stop : Nat
  deriving Repr, DecidableEq, Inhabited

end BranchText
