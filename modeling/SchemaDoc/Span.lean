/-! Ranges of byte offsets in a source text, and the least range that covers two of them. -/

namespace SchemaDoc

/-- A range of UTF-8 byte offsets, from `start` up to but not including `stop`. -/
structure Span where
  start : Nat
  stop : Nat
  deriving DecidableEq, Repr, Inhabited

namespace Span

/-- The range of a declaration that has no place in any text. -/
def none : Span := ⟨0, 0⟩

/-- The number of bytes in the range. -/
def length (span : Span) : Nat := span.stop - span.start

/-- A range is empty when it starts where it stops. -/
def isEmpty (span : Span) : Bool := span.start == span.stop

/-- The least range that covers both. -/
def merge (left right : Span) : Span :=
  ⟨min left.start right.start, max left.stop right.stop⟩

@[simp]
theorem merge_start (left right : Span)
    : (left.merge right).start = min left.start right.start :=
  rfl

@[simp]
theorem merge_stop (left right : Span)
    : (left.merge right).stop = max left.stop right.stop :=
  rfl

end Span

end SchemaDoc
