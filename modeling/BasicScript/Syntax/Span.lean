/-! # Source spans

A span is a range of byte offsets in the text a program was read from.
Execution never looks inside one: spans only end up in error reports.
-/

namespace BasicScript

/-- Byte offsets from `start` up to, and not including, `stop`. -/
structure Span where
  start : Nat
  stop : Nat
  deriving DecidableEq, Repr, Inhabited

namespace Span

/-- The span of a node that stands nowhere in the text. -/
def nowhere : Span := ⟨0, 0⟩

/-- Number of bytes covered; a reversed span covers none. -/
def length (s : Span) : Nat := s.stop - s.start

/-- Both ends coincide. -/
def isEmpty (s : Span) : Bool := s.start == s.stop

/-- The least span that covers both. -/
def merge (s t : Span) : Span := ⟨min s.start t.start, max s.stop t.stop⟩

/-- Written form, `3..9`. -/
def text (s : Span) : String := s!"{s.start}..{s.stop}"

end Span

end BasicScript
