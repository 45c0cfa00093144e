import TimePhrase.Grammar.Query

/-!
# Engines

An engine holds a grammar for a host that knows no more of it than its document. Kinds are asked
for by a list of names, and whatever goes wrong is told as a text.

* `Engine.load`  loads an engine, or tells every fault on a line of its own
* `Engine.extract`  the matches of the kinds asked for, of all kinds by default
* `Engine.matchExact`  the match of a whole text
-/

namespace TimePhrase

/-- The report of a list of kinds with an unknown name. -/
def KindSet.unknownMessage (list : Text) : Text := "unknown temporal type in '" ++ list ++ "'"

/-- A grammar in use by a host. -/
structure Engine where
  grammar : Grammar

namespace Engine

/-- Loads an engine from the text of a grammar document. -/
def load [PropertyTable] (caseSensitive : Bool) (source : Text) : Except Text Engine :=
  match Grammar.ofDocument caseSensitive source with
  | .ok g => .ok ⟨g⟩
  | .error faults => .error (Text.join "\n" (faults.map LoadError.message))

/-- The number of rules, the negative ones not counted. -/
def ruleCount (e : Engine) : Nat := e.grammar.book.rules.length

/-- The kinds of a list, or all kinds where there is no list. -/
def kindsOf (list : Option Text) : Except Text KindSet :=
  match list with
  | none => .ok .all
  | some list =>
    match KindSet.ofList? list with
    | some kinds => .ok kinds
    | none => .error (KindSet.unknownMessage list)

/-- The matches in a text, of the kinds in a list. -/
def extract (e : Engine) (text : Text) (list : Option Text) : Engine × Except Text (List Match) :=
  match kindsOf list with
  | .error message => (e, .error message)
  | .ok kinds =>
    let (g, found) := e.grammar.extract kinds text
    (⟨g⟩, found.mapError MatchError.message)

/-- The match of the whole of a text, of any kind. -/
def matchExact (e : Engine) (text : Text) : Engine × Except Text (Option Match) :=
  let (g, found) := e.grammar.matchExact .all text
  (⟨g⟩, found.mapError MatchError.message)

end Engine

end TimePhrase
