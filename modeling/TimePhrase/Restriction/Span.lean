/-!
# Spans

A span is a stretch of a text, counted in bytes.
-/

namespace TimePhrase

/-- A stretch of `len` bytes from the byte `start` on. -/
structure Span where
  start : Nat
  len : Nat
deriving DecidableEq, Repr, Inhabited

namespace Span

/-- The byte after the last one. -/
def stop (s : Span) : Nat := s.start + s.len

/-- The span from `start` up to `stop`. -/
def between (start stop : Nat) : Span := ⟨start, stop - start⟩

/-- The least span that covers two spans. -/
def cover (s t : Span) : Span := between (min s.start t.start) (max s.stop t.stop)

/-- Whether a byte lies in the span. -/
def holds (s : Span) (byte : Nat) : Bool := s.start ≤ byte && byte < s.stop

theorem stop_cover (s t : Span) : (s.cover t).stop = max s.stop t.stop := by
  simp only [cover, between, stop]
  omega

end Span

end TimePhrase
