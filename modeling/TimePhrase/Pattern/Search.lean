import TimePhrase.Pattern.Ends

/-!
# Searching a text

A pattern is searched for from left to right. At the first place where it matches at all, the
preferred way to match counts.

* `Pattern.first?`  the first match at or after a place
* `Pattern.occurrences`  the matches one after the other
-/

namespace TimePhrase

/-- A match: where it begins, and where it ends, with the captures. -/
structure Occurrence where
  start : Nat
  stop : Cursor

namespace Occurrence

/-- The matched stretch of the text. -/
def span (m : Occurrence) : Span := Span.between m.start m.stop.byte

/-- What a named group captured, if it took part in the match. -/
def captured? (m : Occurrence) (name : Text) : Option Span := m.stop.captured? name

end Occurrence

namespace Pattern

/-- The first match at one of the next places. `fuel` bounds their number. -/
def searchFrom (p : Pattern) : Nat → Cursor → Option Occurrence
  | 0, _ => none
  | fuel + 1, s =>
    match p.ends s with
    | t :: _ => some ⟨s.byte, t⟩
    | [] => s.next?.bind (searchFrom p fuel)

/-- The first match at or after a place. -/
def first? (p : Pattern) (s : Cursor) : Option Occurrence :=
  searchFrom p (s.rest.length + 1) { s with captures := [], trail := none }

/-- The first match in a text. -/
def firstIn? (p : Pattern) (text : Text) : Option Occurrence := p.first? (.start text)

/-- Whether the pattern matches somewhere in a text. -/
def isIn (p : Pattern) (text : Text) : Bool := (p.firstIn? text).isSome

/-- The next match after one that ended at `s`. An empty match right there does not count. -/
def nextAfter? (p : Pattern) (s : Cursor) : Option Occurrence :=
  match p.first? s with
  | some m => if m.start = s.byte ∧ m.stop.byte = s.byte then s.next?.bind p.first? else some m
  | none => none

/-- The match `m` and those after it. `fuel` bounds their number. -/
def occurrencesFrom (p : Pattern) : Nat → Option Occurrence → List Occurrence
  | 0, _ => []
  | _ + 1, none => []
  | fuel + 1, some m => m :: occurrencesFrom p fuel (p.nextAfter? m.stop)

/-- The matches in a text, one after the other. -/
def occurrences (p : Pattern) (text : Text) : List Occurrence :=
  occurrencesFrom p (text.length + 2) (p.firstIn? text)

end Pattern

end TimePhrase
