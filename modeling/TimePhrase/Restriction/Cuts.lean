import TimePhrase.Restriction.Span
import TimePhrase.Sorting
import TimePhrase.Text.Blank

/-!
# Cuts

Restricted spans are turned into the cuts that remove them from a text. The spans are walked in the
order given and gathered into one pending span as long as each next one is contiguous with it. The
cuts are then put in order, and a cut that would leave two gaps side by side takes the second one
with it.
-/

namespace TimePhrase.Restriction

/-- The characters trimmed off both ends of a value, which may also stand between two spans that
    are removed as one. -/
def isTrimmed (c : Char) : Bool :=
  c == ' ' || c == '\t' || c == '\n' || c == '\r' || c == '\x0b' || c == '\x0c' || c == ','

/-- What to do with the next span. -/
inductive Decision where
  /-- Nothing is pending: start from this span. -/
  | seed
  /-- The span is contiguous with the pending one: let that grow over it. -/
  | merge
  /-- The span is apart from the pending one: cut that and start again from this span. -/
  | cut
deriving DecidableEq, Repr

/-- What stands in a text between two spans that do not meet. -/
def gap (text : Text) (s t : Span) : Text :=
  if s.stop < t.start then text.slice s.stop t.start else text.slice t.stop s.start

/-- Two spans are contiguous if they overlap or touch, or if only trimmed characters stand between
    them. -/
def contiguous (text : Text) (s t : Span) : Bool :=
  (s.start ≤ t.stop && t.start ≤ s.stop) || (gap text s t).all isTrimmed

/-- What to do with a span while another one may be pending. -/
def decision (text : Text) (pending : Option Span) (span : Span) : Decision :=
  match pending with
  | none => .seed
  | some p => if contiguous text span p then .merge else .cut

/-- Gathers spans, in the order of the walk, into cuts. -/
def gather (text : Text) : Option Span → List Span → List Span
  | pending, [] => pending.toList
  | none, s :: r => gather text (some s) r
  | some p, s :: r =>
    match decision text (some p) s with
    | .merge => gather text (some (p.cover s)) r
    | .cut => p :: gather text (some s) r
    | .seed => gather text (some s) r

/-- Whether a blank stands right before a byte. -/
def blankBefore (text : Text) (byte : Nat) : Bool :=
  match (text.takeBytes byte).getLast? with
  | some c => isBlank c
  | none => false

/-- Lets a cut after a blank take the blanks behind it too, so that no double gap is left. -/
def stretch (text : Text) (cut : Span) : Span :=
  if blankBefore text cut.start then
    ⟨cut.start, cut.len + Text.byteSize ((text.dropBytes cut.stop).takeWhile isBlank)⟩
  else cut

/-- Joins cuts that meet, after the cut `last`, and stretches every one. The cuts come in the order
    of their starts. -/
def settleAfter (text : Text) : Option Span → List Span → List Span
  | last, [] => last.toList
  | none, c :: r => settleAfter text (some (stretch text c)) r
  | some last, c :: r =>
    -- A cut that has been stretched can reach the next one.
    if c.start ≤ last.stop then settleAfter text (some (stretch text (last.cover c))) r
    else last :: settleAfter text (some (stretch text c)) r

/-- Puts cuts in order, joins those that meet and stretches every one. -/
def settle (text : Text) (cuts : List Span) : List Span :=
  settleAfter text none (sortBy Span.start cuts)

/-- The cuts that remove the given spans. Empty spans are passed over. -/
def planCuts (text : Text) (spans : List Span) : List Span :=
  settle text (gather text none (spans.filter fun s => 0 < s.len))

end TimePhrase.Restriction
