import TimePhrase.Pattern.Assertion
import TimePhrase.Pattern.CharSet

/-!
# Patterns

A pattern describes stretches of text. Among the ways in which it can match it has a preference:
the left alternative before the right one, and more repetitions before fewer, or the other way
round where a repetition is lazy.
-/

namespace TimePhrase

/-- A pattern. A sequence leans to the left and a choice to the right: the last member of a sequence
    is no sequence, and the first alternative of a choice is no choice. -/
inductive Pattern where
  /-- The empty text. -/
  | empty
  /-- A text, not empty, that stands for itself. -/
  | literal (text : Text)
  /-- One character of a set. -/
  | char (set : CharSet)
  | assertion (a : Assertion)
  /-- A group with its number; what a named one matches is captured. -/
  | group (index : Nat) (name : Option Text) (body : Pattern)
  | concat (left right : Pattern)
  | either (left right : Pattern)
  /-- From `least` to `most` times, or any number of times from `least` on. -/
  | repetition (body : Pattern) (least : Nat) (most : Option Nat) (greedy : Bool)
deriving DecidableEq

namespace Pattern

/-- Whether the pattern can match nothing but the empty text. -/
def onlyEmpty : Pattern → Bool
  | .empty | .assertion _ => true
  | .literal _ | .char _ => false
  | .group _ _ p => p.onlyEmpty
  | .concat p q => p.onlyEmpty && q.onlyEmpty
  | .either p q => p.onlyEmpty && q.onlyEmpty
  | .repetition p _ _ _ => p.onlyEmpty

/-- Whether a set without characters stands somewhere in the pattern. -/
def hasVoid : Pattern → Bool
  | .char set => set.ranges.isEmpty
  | .empty | .assertion _ | .literal _ => false
  | .group _ _ p => p.hasVoid
  | .concat p q => p.hasVoid || q.hasVoid
  | .either p q => p.hasVoid || q.hasVoid
  | .repetition p _ _ _ => p.hasVoid

/-- Whether every match has a character. -/
def advances : Pattern → Bool
  | .empty | .assertion _ => false
  | .literal _ | .char _ => true
  | .group _ _ p => p.advances
  | .concat p q => p.advances || q.advances
  | .either p q => p.advances && q.advances
  | .repetition p least _ _ => least != 0 && p.advances

/-- Whether the pattern matches nowhere but at the beginning of a text, as far as its first members
    tell. -/
def startsText : Pattern → Bool
  | .assertion a => a == .textStart
  | .group _ _ p => p.startsText
  | .concat p q => p.startsText || (p.onlyEmpty && q.startsText)
  | .either p q => p.startsText && q.startsText
  | .repetition p least _ _ => least != 0 && p.startsText
  | .empty | .literal _ | .char _ => false

/-- Whether the pattern matches nowhere but up to the end of a text, as far as its last members
    tell. -/
def endsText : Pattern → Bool
  | .assertion a => a == .textEnd
  | .group _ _ p => p.endsText
  | .concat p q => q.endsText || (q.onlyEmpty && p.endsText)
  | .either p q => p.endsText && q.endsText
  | .repetition p least _ _ => least != 0 && p.endsText
  | .empty | .literal _ | .char _ => false

/-- The number of constructors. -/
def weight : Pattern → Nat
  | .empty | .assertion _ | .literal _ | .char _ => 1
  | .group _ _ p => p.weight + 1
  | .concat p q => p.weight + q.weight + 1
  | .either p q => p.weight + q.weight + 1
  | .repetition p _ _ _ => p.weight + 1

end Pattern

end TimePhrase
