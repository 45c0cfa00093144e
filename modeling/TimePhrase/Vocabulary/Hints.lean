import TimePhrase.Text.Integer

/-!
# Hints

A grammar can carry hints for whoever resolves its facts into calendar values. They are kept and
handed on, nothing here acts on them.
-/

namespace TimePhrase

/-- How a bare weekday is to be resolved. -/
inductive WeekdayLogic where
  | programmatic
  | simpleOffset
  | weekBoundary
deriving DecidableEq, Repr, Inhabited

namespace WeekdayLogic

/-- The name in grammars and reports. -/
def name : WeekdayLogic → Text
  | .programmatic => "Programmatic"
  | .simpleOffset => "SimpleOffset"
  | .weekBoundary => "WeekBoundary"

/-- Reads a name, in any case and between blanks. -/
def ofName? (s : Text) : Option WeekdayLogic :=
  [programmatic, .simpleOffset, .weekBoundary].find? fun k => k.name.sameAsciiLetters s.trim

end WeekdayLogic

/-- Reads `true` or `false` in any case. -/
def Text.toBool? (s : Text) : Option Bool :=
  if s.sameAsciiLetters "true" then some true
  else if s.sameAsciiLetters "false" then some false
  else none

/-- The hints of a grammar; each one may be missing. -/
structure Hints where
  weekdayLogic : Option WeekdayLogic
  amPmInferenceCutoff : Option Int
  includeCurrentTime : Option Bool
deriving DecidableEq, Repr, Inhabited

namespace Hints

/-- No hint at all. -/
def empty : Hints := ⟨none, none, none⟩

/-- Takes over one named hint; nothing if the name is unknown or the content does not fit it. -/
def set? (h : Hints) (name content : Text) : Option Hints :=
  let content := content.trim
  if name = "WeekdayLogic" then
    (WeekdayLogic.ofName? content).map fun l => { h with weekdayLogic := some l }
  else if name = "AmPmInferenceCutoff" then
    (content.toInt? .signed32).map fun n => { h with amPmInferenceCutoff := some n }
  else if name = "IncludeCurrentTimeInPastOrFuture" then
    content.toBool?.map fun b => { h with includeCurrentTime := some b }
  else none

end Hints

end TimePhrase
