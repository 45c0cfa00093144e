import TimePhrase.Grammar.Basic
import TimePhrase.Grammar.Overlap
import TimePhrase.Sorting

/-!
# Queries

Queries ask the exposed rules of a grammar. A rule that matches for the first time finds its
scripts, so a query returns the grammar as it is afterwards, also when it fails.

* `Grammar.matchExact`  the first rule that matches the whole of a text
* `Grammar.matchAll`  every match of every rule
* `Grammar.extract`  the matches left when overlaps are resolved and negative rules have spoken
-/

namespace TimePhrase.Grammar

/-- All matches of the rules chosen by `asked`, up to the first fault. -/
def collect (scripts : Registry) (tables : Tables) (text : Text) (asked : Rule → Bool) :
    List Rule → List Rule × Except MatchError (List Match)
  | [] => ([], .ok [])
  | r :: rs =>
    if asked r then
      match r.matchAll scripts tables text with
      | (r, .error e) => (r :: rs, .error e)
      | (r, .ok found) =>
        let (rs, others) := collect scripts tables text asked rs
        (r :: rs, others.map (found ++ ·))
    else
      let (rs, found) := collect scripts tables text asked rs
      (r :: rs, found)

/-- The first match of the whole of a text by a rule chosen by `asked`. -/
def firstExact (scripts : Registry) (tables : Tables) (text : Text) (asked : Rule → Bool) :
    List Rule → List Rule × Except MatchError (Option Match)
  | [] => ([], .ok none)
  | r :: rs =>
    if asked r then
      match r.matchExact scripts tables text with
      | (r, .error e) => (r :: rs, .error e)
      | (r, .ok (some found)) => (r :: rs, .ok (some found))
      | (r, .ok none) =>
        let (rs, found) := firstExact scripts tables text asked rs
        (r :: rs, found)
    else
      let (rs, found) := firstExact scripts tables text asked rs
      (r :: rs, found)

/-- The exposed rules of the kinds asked for. -/
def asks (kinds : KindSet) (r : Rule) : Bool := r.isExposed && kinds.has r.kind

/-- The grammar with other rules. -/
def withRules (g : Grammar) (rules : List Rule) : Grammar :=
  { g with book := { g.book with rules := rules } }

/-- The grammar with other negative rules. -/
def withNegativeRules (g : Grammar) (rules : List Rule) : Grammar :=
  { g with book := { g.book with negativeRules := rules } }

/-- The matches of the rules of some kinds, in the order of their places. Matches at the same place
    keep the order of their rules. -/
def candidates (g : Grammar) (kinds : KindSet) (text : Text) :
    Grammar × Except MatchError (List Match) :=
  let (rules, found) := collect g.book.scripts g.resources.tables text (asks kinds) g.book.rules
  (g.withRules rules, found.map (sortBy Match.index))

/-- The matches of the negative rules of some kinds. -/
def suppressors (g : Grammar) (kinds : KindSet) (text : Text) :
    Grammar × Except MatchError (List Match) :=
  let (rules, found) :=
    collect g.book.scripts g.resources.tables text (asks kinds) g.book.negativeRules
  (g.withNegativeRules rules, found.map (sortBy Match.index))

/-- The match of the whole of a text by the first rule of some kinds that has one. -/
def matchExact (g : Grammar) (kinds : KindSet) (text : Text) :
    Grammar × Except MatchError (Option Match) :=
  let (rules, found) := firstExact g.book.scripts g.resources.tables text (asks kinds) g.book.rules
  (g.withRules rules, found)

/-- Every match of every rule. Overlaps are kept. -/
def matchAll (g : Grammar) (text : Text) : Grammar × Except MatchError (List Match) :=
  g.candidates .all text

/-- The matches of some kinds, without overlaps and without those that a match of a negative rule
    encloses. -/
def extract (g : Grammar) (kinds : KindSet) (text : Text) :
    Grammar × Except MatchError (List Match) :=
  match g.candidates kinds text with
  | (g, .error e) => (g, .error e)
  | (g, .ok found) =>
    -- The negative rules are asked only if the others have not failed.
    let (g, negatives) := g.suppressors kinds text
    (g, negatives.map fun negatives =>
      (Match.resolve found).filter fun m => !negatives.any fun n => n.encloses m)

end TimePhrase.Grammar
