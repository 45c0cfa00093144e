import TimePhrase.Pattern.Basic
import TimePhrase.Restriction.Span

/-!
# Where a pattern can end

From a place in a text a pattern can come to its end at several places. They are listed in the
order of preference, each place once, with the stretches that the named groups captured on the way.

Repetitions of what can be empty need care, because they can come back to a part of their body
without having advanced. Of a part that was left at a place, only the ends further on count when it
is entered at that place again: it has been passed there before.

* `Pattern.ends`  the list for any pattern
-/

namespace TimePhrase

/-- A place in a text, reached with captures on the way. -/
structure Cursor where
  /-- The character before the place. -/
  before : Option Char
  /-- The text after the place. -/
  rest : Text
  /-- The bytes before the place. -/
  byte : Nat
  /-- What the named groups have captured, the latest first. -/
  captures : List (Text × Span)
  /-- If the pattern at hand was left at this place, the way to the character that it has matched
      last: the number of a part, of a part of that, and so on. -/
  trail : Option (List Nat)
deriving DecidableEq

namespace Cursor

/-- The beginning of a text. -/
def start (text : Text) : Cursor := ⟨none, text, 0, [], none⟩

/-- The place after the next character, if there is one. -/
def next? (s : Cursor) : Option Cursor :=
  match s.rest with
  | [] => none
  | c :: r =>
    some { s with before := some c, rest := r, byte := s.byte + c.utf8Size, trail := some [] }

/-- Notes that a group with a name matched from `start` up to here. -/
def capture (s : Cursor) (name : Option Text) (start : Nat) : Cursor :=
  match name with
  | none => s
  | some n => { s with captures := (n, Span.between start s.byte) :: s.captures }

/-- What a group captured last. -/
def captured? (s : Cursor) (name : Text) : Option Span :=
  (s.captures.find? fun e => e.1 == name).map (·.2)

/-- The place after a text, if the text comes next. -/
def pass? (s : Cursor) : Text → Option Cursor
  | [] => some s
  | c :: r => if s.rest.head? = some c then s.next?.bind fun s => s.pass? r else none

/-- The cursor as seen from a part of the pattern at hand. -/
def into (s : Cursor) (part : Nat) : Cursor :=
  match s.trail with
  | some (n :: way) => { s with trail := if n = part then some way else none }
  | _ => { s with trail := none }

/-- The cursor `t`, which a part has reached from `s`, as seen from the whole pattern. -/
def outOf (s : Cursor) (part : Nat) (t : Cursor) : Cursor :=
  { t with trail := if s.byte < t.byte then t.trail.map (part :: ·) else s.trail }

end Cursor

namespace Pattern

/-- Where a part of a pattern can end, which is given its own view of the cursor. A part that was
    left at this place has to advance. -/
def within (part : Nat) (ends : Cursor → List Cursor) (s : Cursor) : List Cursor :=
  let inner := s.into part
  let found := ends inner
  -- To end here a second time would only repeat the way that led out of the part the first time.
  let found := if inner.trail.isSome then found.filter fun t => s.byte < t.byte else found
  found.map (s.outOf part)

/-! ## Each place once -/

/-- A set of places at or after the byte `base`, as the bits of a number. -/
abbrev Places := Nat

/-- Whether a place is in the set. -/
def Places.has (p : Places) (base byte : Nat) : Bool := Nat.testBit p (byte - base)

/-- The set with one more place. -/
def Places.add (p : Places) (base byte : Nat) : Places := p ||| (1 <<< (byte - base))

/-- The cursors of a list whose places are not in the set, the first one of each place. -/
def firstsOutside (base : Nat) : Places → List Cursor → List Cursor
  | _, [] => []
  | seen, s :: r =>
    if seen.has base s.byte then firstsOutside base seen r
    else s :: firstsOutside base (seen.add base s.byte) r

/-- The first cursor of each place of a list, in the order of the list. -/
def firsts (base : Nat) (l : List Cursor) : List Cursor :=
  match l with
  | [] => []
  | [s] => [s]
  | l => firstsOutside base 0 l

/-! ## Repetitions -/

/-- Exactly `n` iterations. `step` tells them apart by their numbers. -/
def exactly (step : Nat → Cursor → List Cursor) (base : Nat) : Nat → List Cursor → List Cursor
  | 0, l => l
  | _ + 1, [] => []
  | n + 1, l => exactly step base n (firsts base (l.flatMap (step n)))

/-- The state of a walk over iterations: the places whose iterations have been followed, for each
    level of iteration that is told apart, and the cursors found, the latest first. -/
structure Walk (Seen : Type) where
  seen : Seen
  found : List Cursor

/-- Adds a cursor. -/
def Walk.find {Seen : Type} (w : Walk Seen) (s : Cursor) : Walk Seen :=
  { w with found := s :: w.found }

/-- Any number of iterations. An iteration that does not advance is the last one. `fuel` bounds the
    iterations that advance. -/
def walkAny (step : Cursor → List Cursor) (greedy : Bool) (base : Nat) :
    Nat → Walk Places → Cursor → Walk Places
  | 0, w, s => w.find s
  | fuel + 1, w, s =>
    -- Whoever came here first has found all that can be found from here.
    if w.seen.has base s.byte then w
    else
      -- A lazy repetition prefers to end, a greedy one to go on.
      let w := if greedy then w else w.find s
      let w := (step s).foldl
        (fun w t => if s.byte < t.byte then walkAny step greedy base fuel w t else w.find t) w
      let w := { w with seen := w.seen.add base s.byte }
      if greedy then w.find s else w

/-- Up to so many iterations. The places are kept for each number of iterations left, the head of
    the list for the present one. -/
def walkUpTo (step : Nat → Cursor → List Cursor) (greedy : Bool) (base : Nat) :
    Nat → Walk (List Places) → Cursor → Walk (List Places)
  | 0, w, s => w.find s
  | left + 1, w, s =>
    let here := w.seen.headD 0
    if here.has base s.byte then w
    else
      let w := if greedy then w else w.find s
      let inner :=
        (step left s).foldl (walkUpTo step greedy base left) ⟨w.seen.tail, w.found⟩
      let w := ⟨here.add base s.byte :: inner.seen, inner.found⟩
      if greedy then w.find s else w

/-- Where one iteration and any number of further ones can end. -/
def atLeastOne (step : Cursor → List Cursor) (greedy : Bool) (s : Cursor) : List Cursor :=
  firsts s.byte ((step s).foldl
    (fun w t =>
      if s.byte < t.byte then walkAny step greedy s.byte (t.rest.length + 1) w t else w.find t)
    ⟨0, []⟩).found.reverse

/-- Where any number of iterations can end. -/
def anyNumber (step : Cursor → List Cursor) (greedy : Bool) (s : Cursor) : List Cursor :=
  if greedy then firsts s.byte (atLeastOne step greedy s ++ [s])
  else firsts s.byte (s :: atLeastOne step greedy s)

/-- Where up to `n` iterations can end. -/
def upTo (step : Nat → Cursor → List Cursor) (greedy : Bool) (n : Nat) (s : Cursor) : List Cursor :=
  firsts s.byte (walkUpTo step greedy s.byte n ⟨[], []⟩ s).found.reverse

/-- Where a repetition can end. The bounded iterations come first, then those that need not be, and
    each of them is a part of its own; the unbounded ones are one part. `advances` says that every
    iteration advances. Then there is but one choice between one more and none, and where it has
    been met there is nothing left to choose. -/
def repetitionEnds (step : Nat → Cursor → List Cursor) (advances : Bool) (least : Nat)
    (most : Option Nat) (greedy : Bool) (s : Cursor) : List Cursor :=
  match least, most with
  -- None at all can be preferred to one, which only then has further ones after it.
  | 0, none => if advances && s.trail.isSome then [] else anyNumber (step 0) greedy s
  | n + 1, none =>
    firsts s.byte ((exactly step s.byte n [s]).flatMap (atLeastOne (step n) greedy))
  | n, some m =>
    firsts s.byte ((exactly step s.byte n [s]).flatMap
      (upTo (fun left => step (n + left)) greedy (m - n)))

/-! ## All patterns -/

/-- Where a pattern can end, most preferred first. -/
def ends : Pattern → Cursor → List Cursor
  | .empty, s => [s]
  | .literal text, s => (s.pass? text).toList
  | .char set, s =>
    match s.rest with
    | [] => []
    | c :: _ => if set.has c then s.next?.toList else []
  | .assertion a, s => if a.holds s.before s.rest.head? then [s] else []
  | .group _ name p, s => (p.ends s).map fun t => t.capture name s.byte
  | .concat p q, s => firsts s.byte ((within 0 p.ends s).flatMap (within 1 q.ends))
  | .either p q, s => firsts s.byte (within 0 p.ends s ++ within 1 q.ends s)
  | .repetition p least most greedy, s =>
    repetitionEnds (fun n => within n p.ends) (p.advances && !p.hasVoid) least most greedy s

end Pattern

end TimePhrase
