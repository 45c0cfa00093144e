import TimePhrase.Restriction.Removal
import TimePhrase.Rule.Basic

/-!
# Matching a rule

A match has a value, which is the matched text without its excluded parts, and facts, which the
scripts of its groups have set. A rule finds its scripts at its first match, all of them or none,
and keeps them from then on. So matching returns the rule as it is afterwards.

* `Rule.matchExact`  the whole of a text
* `Rule.matchAll`  all matches in a text, one after the other
-/

namespace TimePhrase

/-- One recognised expression. -/
structure Match where
  value : Text
  /-- The byte at which the value begins in the text. -/
  index : Nat
  facts : Dictionary
  ruleId : Text
  kind : Kind
deriving DecidableEq, Inhabited

namespace Match

/-- The end of the value, counted from the index. -/
def stop (m : Match) : Nat := m.index + Text.byteSize m.value

/-- Whether one match encloses another. -/
def encloses (m n : Match) : Bool := m.index ≤ n.index && n.stop ≤ m.stop

end Match

/-- What can go wrong in a query. -/
inductive MatchError where
  | missingScript (ruleId : Text) (part : Nat)
  | script (ruleId : Text) (part : Nat) (cause : Script.Error)
deriving DecidableEq

namespace MatchError

/-- The report of a fault. -/
def message : MatchError → Text
  | .missingScript ruleId part =>
    "rule '" ++ ruleId ++ "': no compiled tag script registered for group " ++ Part.name part
  | .script ruleId part cause =>
    "rule '" ++ ruleId ++ "': tag script for group " ++ Part.name part ++ " failed: " ++
      cause.message

end MatchError

namespace Rule

/-- Looks up the scripts of tagged groups. -/
def findActions (ruleId : Text) (scripts : Provider) :
    List (Nat × Text) → Except MatchError (List (Nat × TagScript))
  | [] => .ok []
  | (part, _) :: r =>
    match scripts ruleId (Part.name part) with
    | none => .error (.missingScript ruleId part)
    | some script => (findActions ruleId scripts r).map ((part, script) :: ·)

/-- The rule with its scripts, which are looked up if it does not have them yet. -/
def realize (r : Rule) (scripts : Provider) : Except MatchError Rule :=
  match r.actions with
  | some _ => .ok r
  | none =>
    (findActions r.id scripts r.phrase.tags).map fun actions => { r with actions := some actions }

/-- The text that a group captured. -/
def capturedText (text : Text) (m : Occurrence) (part : Nat) : Text :=
  match m.captured? (Part.name part) with
  | some s => text.slice s.start s.stop
  | none => []

/-- The facts that the scripts of a match set. Scripts of groups without text are passed over. -/
def factsOf (ruleId : Text) (tables : Tables) (text : Text) (m : Occurrence) :
    Dictionary → List (Nat × TagScript) → Except MatchError Dictionary
  | facts, [] => .ok facts
  | facts, (part, script) :: r =>
    -- A group that took no part in the match and one that matched nothing are alike.
    let captured := capturedText text m part
    if captured.isEmpty then factsOf ruleId tables text m facts r
    else
      match script.run tables captured facts with
      | (facts, none) => factsOf ruleId tables text m facts r
      | (_, some cause) => .error (.script ruleId part cause)

/-- The excluded spans of a match, counted from its start, the last declared one first. -/
def excludedSpans (r : Rule) (m : Occurrence) : List Span :=
  r.phrase.excluded.reverse.filterMap fun part =>
    (m.captured? (Part.name part)).map fun s => ⟨s.start - m.start, s.len⟩

/-- Makes a match of an occurrence of the rule's pattern. -/
def matchOf (r : Rule) (tables : Tables) (text : Text) (m : Occurrence) :
    Except MatchError Match := do
  let facts ← factsOf r.id tables text m .empty (r.actions.getD [])
  let removal := Restriction.removeSpans (text.slice m.start m.stop.byte) (r.excludedSpans m)
  return ⟨removal.value, m.start + removal.offset, facts, r.id, r.kind⟩

/-- Makes matches of occurrences. The scripts are looked up if there is an occurrence at all. -/
def matchesOf (r : Rule) (scripts : Provider) (tables : Tables) (text : Text)
    (ms : List Occurrence) : Rule × Except MatchError (List Match) :=
  if ms.isEmpty then (r, .ok [])
  else
    match r.realize scripts with
    | .error e => (r, .error e)
    | .ok r => (r, ms.mapM (r.matchOf tables text))

/-- The match of the whole of a text. -/
def matchExact (r : Rule) (scripts : Provider) (tables : Tables) (text : Text) :
    Rule × Except MatchError (Option Match) :=
  let (r, found) := r.matchesOf scripts tables text (r.exactPattern.firstIn? text).toList
  (r, found.map List.head?)

/-- All matches in a text, from left to right. -/
def matchAll (r : Rule) (scripts : Provider) (tables : Tables) (text : Text) :
    Rule × Except MatchError (List Match) :=
  r.matchesOf scripts tables text (r.pattern.occurrences text)

end Rule

end TimePhrase
