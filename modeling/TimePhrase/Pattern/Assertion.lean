import TimePhrase.Pattern.WordChar

/-!
# Assertions

Conditions on a place in a text, told from the characters on its two sides. Words are told from what
is between them in two ways: by all word characters, or by those below 128 only.
-/

namespace TimePhrase

/-- A condition on a place between characters. -/
inductive Assertion where
  | textStart
  | textEnd
  /-- The beginning of a line. With `returns`, a line can also end with a carriage return, alone or
      with a line feed after it. -/
  | lineStart (returns : Bool)
  /-- The end of a line. -/
  | lineEnd (returns : Bool)
  /-- The seam between a word character and another one, or an end of the text. With `ascii`, here
      and below, only the word characters below 128 count as such. -/
  | wordBoundary (ascii : Bool)
  | notWordBoundary (ascii : Bool)
  | wordStart (ascii : Bool)
  | wordEnd (ascii : Bool)
  /-- No word character comes before the place. -/
  | wordStartHalf (ascii : Bool)
  /-- No word character comes after the place. -/
  | wordEndHalf (ascii : Bool)
deriving DecidableEq

namespace Assertion

/-- Whether a word character is on one side of the place. -/
def hasWord (ascii : Bool) (side : Option Char) : Bool :=
  side.any fun c => isWordChar c && (!ascii || c.toNat < 128)

/-- Whether the condition holds between two characters, which are missing at the ends of the
    text. -/
def holds (a : Assertion) (before next : Option Char) : Bool :=
  match a with
  | .textStart => before.isNone
  | .textEnd => next.isNone
  | .lineStart false => before.all (· == '\n')
  | .lineStart true => before.all (· == '\n') || (before == some '\r' && next != some '\n')
  | .lineEnd false => next.all (· == '\n')
  | .lineEnd true => next.all (· == '\r') || (next == some '\n' && before != some '\r')
  | .wordBoundary ascii => hasWord ascii before != hasWord ascii next
  | .notWordBoundary ascii => hasWord ascii before == hasWord ascii next
  | .wordStart ascii => !hasWord ascii before && hasWord ascii next
  | .wordEnd ascii => hasWord ascii before && !hasWord ascii next
  | .wordStartHalf ascii => !hasWord ascii before
  | .wordEndHalf ascii => !hasWord ascii next

end Assertion

end TimePhrase
