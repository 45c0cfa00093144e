import TimePhrase.Pattern.Automaton.CharState
import TimePhrase.Pattern.Automaton.WordTree
import TimePhrase.Pattern.Basic

/-!
# The size of a pattern

A pattern is accepted if the automata that read it forward and backward are not too large. Counted
repetitions are written out in them, and so is every set of characters.

* `Pattern.fits`  whether both automata are within the limit
-/

namespace TimePhrase

/-- The directions in which a text is read. -/
inductive Direction where
  | forward
  | backward

namespace Direction

/-- The first of two steps, and then the second one; the other way round backward. -/
def inOrder (d : Direction) (first second : Tally → Tally) (t : Tally) : Tally :=
  match d with
  | .forward => second (first t)
  | .backward => first (second t)

end Direction

namespace Pattern

/-- The bytes of a literal. -/
def literalBytes? : Pattern → Option (List Nat)
  | .literal s => some (s.flatMap fun c => ByteRange.encode c.toNat)
  | _ => none

/-- The words of a choice between literals, as they are read. -/
def words? (d : Direction) : Pattern → Option (List (List Nat))
  | .either p q =>
    match p.literalBytes?, words? d q with
    | some word, some words =>
      match d with
      | .forward => some (word :: words)
      | .backward => some (word.reverse :: words)
    | _, _ => none
  | p =>
    match p.literalBytes?, d with
    | some word, .forward => some [word]
    | some word, .backward => some [word.reverse]
    | none, _ => none

/-- Adds what joins the alternatives of a choice, after the one with the number `place`: with the
    second one come the state that they begin with and the one that they end with. -/
def joinAlternative (place : Option Nat) (t : Tally) : Tally :=
  match place with
  | none | some 0 => t
  | some 1 => (t.addAlternatives 2).addStates 1
  | some _ => { t with listBytes := t.listBytes + Tally.alternativeBytes }

/-- Adds the states of a set. -/
def addSet (d : Direction) (s : CharSet) (t : Tally) : Tally :=
  match d with
  | .forward => t.addForward s
  | .backward => t.addBackward s

/-- Adds the states of a pattern, which is the alternative with the number `place` if it belongs to
    a choice. Groups are told apart forward only. -/
def addTo (d : Direction) : Pattern → Option Nat → Tally → Tally
  | .empty, place, t | .assertion _, place, t => joinAlternative place (t.addStates 1)
  | .literal s, place, t => joinAlternative place (t.addStates (Text.byteSize s))
  | .char s, place, t => joinAlternative place (addSet d s t)
  | .group _ _ p, place, t =>
    joinAlternative place <|
      match d with
      | .forward => (addTo d p none (t.addStates 1)).addStates 1
      | .backward => addTo d p none t
  | .concat p q, place, t =>
    joinAlternative place (d.inOrder (addTo d p none) (addTo d q none) t)
  | .either p q, place, t =>
    match place, words? d (.either p q) with
    | none, some words => t.addWords words
    | _, _ =>
      let place := place.getD 0
      addTo d q (some (place + 1)) (joinAlternative (some place) (addTo d p none t))
  | .repetition p least most _, place, t =>
    joinAlternative place <|
      match least, most with
      | 0, some 1 => (addTo d p none (t.addAlternatives 2)).addStates 1
      | 0, none =>
        if p.advances && !p.hasVoid then addTo d p none (t.addAlternatives 2)
        else (((addTo d p none t).addAlternatives 2).addAlternatives 2).addStates 1
      | n, none => (Tally.times (addTo d p none) n t).addAlternatives 2
      | n, some m =>
        if n = m then Tally.times (addTo d p none) n t
        else
          let t := if n = 0 then t.addStates 1 else Tally.times (addTo d p none) n t
          Tally.times (fun t => addTo d p none (t.addAlternatives 2)) (m - n) (t.addStates 1)

/-- The states that skip what comes before a match, unless the match begins where reading begins. -/
def lead (fixed : Bool) : Tally :=
  if fixed then Tally.zero.addStates 1
  else ((Tally.zero.addAlternatives 2).addStates 1).addTransitions 1

/-- What the automaton takes up that reads the pattern forward. -/
def forwardSize (p : Pattern) : Tally :=
  ((addTo .forward p none ((lead p.startsText).addStates 1)).addStates 1).addStates 1

/-- What the automaton takes up that reads the pattern backward. -/
def backwardSize (p : Pattern) : Tally :=
  (addTo .backward p none (lead p.endsText)).addStates 1

/-- Whether both automata are within the limit. -/
def fits (p : Pattern) : Bool := !p.forwardSize.isOver && !p.backwardSize.isOver

end Pattern

end TimePhrase
