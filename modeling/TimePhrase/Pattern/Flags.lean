import TimePhrase.Text.Blank

/-!
# Flags

The settings that hold at a place of a written pattern, and the blanks and comments that do not
count where a pattern is spaced out.
-/

namespace TimePhrase.Pattern

/-- The settings that flags inside a pattern can change. -/
structure Flags where
  /-- Letters stand for all their cases. -/
  caseless : Bool
  /-- The dot matches line feeds as well. -/
  dotAll : Bool
  /-- The anchors match at line ends as well. -/
  multiLine : Bool
  /-- Carriage returns end lines, too. -/
  returns : Bool
  /-- Repetitions are lazy unless marked. -/
  lazyFirst : Bool
  /-- Blanks and comments do not count. -/
  spaced : Bool
  /-- Classes, words and case go beyond the characters below 128. -/
  unicode : Bool
deriving DecidableEq

namespace Flags

/-- The settings at the beginning of a pattern. -/
def initial (caseless : Bool) : Flags := ⟨caseless, false, false, false, false, false, true⟩

/-- Turns the setting of a letter on or off. -/
def set? (f : Flags) (letter : Char) (on : Bool) : Option Flags :=
  match letter with
  | 'i' => some { f with caseless := on }
  | 's' => some { f with dotAll := on }
  | 'm' => some { f with multiLine := on }
  | 'R' => some { f with returns := on }
  | 'U' => some { f with lazyFirst := on }
  | 'x' => some { f with spaced := on }
  | 'u' => some { f with unicode := on }
  | _ => none

/-- Drops blanks and comments, which go from a number sign to the end of the line. -/
def dropSpace (inComment : Bool) : Text → Text
  | [] => []
  | c :: r =>
    if inComment then dropSpace (c != '\n') r
    else if isBlank c then dropSpace false r
    else if c = '#' then dropSpace true r
    else c :: r

/-- Drops what does not count. -/
def skip (f : Flags) (s : Text) : Text := if f.spaced then dropSpace false s else s

/-- The next character that counts, after a minus sign. A comment is looked into. -/
def peek (f : Flags) (s : Text) : Option Char :=
  if f.spaced then
    match s.dropWhile isBlank with
    | '#' :: r => (r.dropWhile isBlank).head?
    | r => r.head?
  else s.head?

end Flags

end TimePhrase.Pattern
