/-!
# Counting an automaton

What an automaton takes up is counted while it is built, and building ends when it is too large.
-/

namespace TimePhrase

/-- What has been built of an automaton. -/
structure Tally where
  states : Nat
  /-- The bytes of the lists that states keep, of transitions and of alternatives. -/
  listBytes : Nat

namespace Tally

/-- Nothing built. -/
def zero : Tally := ⟨0, 0⟩

/-- Bytes of a state without its lists. -/
def stateBytes : Nat := 32

/-- Bytes of a transition in the list of a state. -/
def transitionBytes : Nat := 8

/-- Bytes of an alternative in the list of a state. -/
def alternativeBytes : Nat := 4

/-- Bytes taken up so far. -/
def bytes (t : Tally) : Nat := stateBytes * t.states + t.listBytes

/-- The largest automaton that is accepted, in bytes. -/
def limit : Nat := 10 * 1024 * 1024

/-- Whether the automaton is too large. -/
def isOver (t : Tally) : Bool := limit < t.bytes

/-- So many states more. -/
def addStates (t : Tally) (n : Nat) : Tally := { t with states := t.states + n }

/-- One more state with a list of transitions. -/
def addTransitions (t : Tally) (n : Nat) : Tally :=
  ⟨t.states + 1, t.listBytes + transitionBytes * n⟩

/-- One more state with a list of alternatives. -/
def addAlternatives (t : Tally) (n : Nat) : Tally :=
  ⟨t.states + 1, t.listBytes + alternativeBytes * n⟩

/-- The same step so many times, unless the automaton gets too large. -/
def times (step : Tally → Tally) : Nat → Tally → Tally
  | 0, t => t
  | n + 1, t => if t.isOver then t else times step n (step t)

end Tally

end TimePhrase
