import TimePhrase.Rule.Match

/-!
# Overlapping matches

Of matches that overlap, the one that begins first is kept. Of those that begin at the same place,
a longer one is kept, and of equally long ones the one with more facts.
-/

namespace TimePhrase.Match

/-- Whether a match at the same place is preferred to `last`. -/
def improves (m last : Match) : Bool :=
  Text.byteSize last.value < Text.byteSize m.value
    || (Text.byteSize m.value == Text.byteSize last.value && last.facts.size < m.facts.size)

/-- Keeps `last`, or what replaces it, and what begins past the end of each one kept. -/
def resolveAfter : Match → List Match → List Match
  | last, [] => [last]
  | last, m :: r =>
    if last.stop < m.index then last :: resolveAfter m r
    else if m.index = last.index ∧ m.improves last then resolveAfter m r
    else resolveAfter last r

/-- Resolves the overlaps of matches that come in the order of their places. -/
def resolve : List Match → List Match
  | [] => []
  | m :: r => resolveAfter m r

end TimePhrase.Match
