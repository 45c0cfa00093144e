import TimePhrase.Document.Reader
import TimePhrase.Rule.Match
import TimePhrase.Vocabulary.Hints

/-!
# Grammars

A grammar is loaded from the root element of its document. Resources and hints are read before the
rules, so that a rule can use a fragment declared after it. Every faulty element is reported, and
there is a grammar only if no element is.

* `Grammar.load`  loads a grammar, or reports the faults in document order
* `Grammar.ofDocument`  loads a grammar from the text of its document
-/

namespace TimePhrase

/-- What rules can use. -/
structure Resources where
  hints : Hints
  fragments : Fragments
  tables : Tables

namespace Resources

/-- No resource. -/
def empty : Resources := ⟨.empty, [], []⟩

/-- Takes over a fragment. -/
def addFragment (r : Resources) (e : Element) : Except LoadError Resources :=
  match Fragment.ofElement? e with
  | .error cause => .error (.resource cause)
  | .ok f =>
    if (r.fragments.get? f.id).isSome then .error (.duplicateId "regex" f.id)
    else .ok { r with fragments := r.fragments ++ [f] }

/-- Takes over a table. -/
def addTable (r : Resources) (caseSensitive : Bool) (e : Element) : Except LoadError Resources :=
  match NormalizationTable.ofElement? e caseSensitive with
  | .error cause => .error (.resource cause)
  | .ok t =>
    if (r.tables.get? t.id).isSome then .error (.duplicateId "normalization_rule" t.id)
    else .ok { r with tables := r.tables ++ [t] }

/-- Takes over a hint, if it is a known one with a fitting content. -/
def addHint (r : Resources) (e : Element) : Resources :=
  let name := (e.attribute? "name").getD []
  let content := (e.attribute? "content").getD []
  { r with hints := (r.hints.set? name content).getD r.hints }

/-- Takes over what an element declares, if it declares a resource or a hint. -/
def add (r : Resources) (caseSensitive : Bool) (e : Element) : Except LoadError Resources :=
  if e.name = "regex" then r.addFragment e
  else if e.name = "normalization_rule" then r.addTable caseSensitive e
  else if e.name = "meta" then .ok (r.addHint e)
  else .ok r

end Resources

/-- The rules of a grammar with the scripts registered for them. -/
structure RuleBook where
  scripts : Registry
  rules : List Rule
  /-- The rules whose matches suppress what they enclose. -/
  negativeRules : List Rule

namespace RuleBook

/-- No rule. -/
def empty : RuleBook := ⟨.empty, [], []⟩

/-- All rules, the negative ones last. -/
def all (b : RuleBook) : List Rule := b.rules ++ b.negativeRules

/-- The rule of an id. -/
def get? (b : RuleBook) (id : Text) : Option Rule := b.all.find? fun r => r.id == id

variable [PropertyTable]

/-- Takes over a rule. Its id may not be that of another rule of either sort. -/
def addRule (b : RuleBook) (fragments : Fragments) (caseSensitive negative : Bool) (e : Element) :
    RuleBook × Option LoadError :=
  match Rule.compile fragments caseSensitive b.scripts e with
  | (scripts, .error err) => ({ b with scripts := scripts }, some err)
  | (scripts, .ok rule) =>
    -- The scripts of the second rule have taken the places of the first one's.
    if (b.get? rule.id).isSome then
      ({ b with scripts := scripts }, some (.duplicateId "rule" rule.id))
    else if negative then
      ({ b with scripts := scripts, negativeRules := b.negativeRules ++ [rule] }, none)
    else ({ b with scripts := scripts, rules := b.rules ++ [rule] }, none)

/-- Takes over what an element declares, if it declares a rule. -/
def add (b : RuleBook) (fragments : Fragments) (caseSensitive : Bool) (e : Element) :
    RuleBook × Option LoadError :=
  if e.name = "rule" then b.addRule fragments caseSensitive false e
  else if e.name = "negative_rule" then b.addRule fragments caseSensitive true e
  else (b, none)

end RuleBook

/-- A loaded grammar. -/
structure Grammar where
  caseSensitive : Bool
  resources : Resources
  book : RuleBook

namespace Grammar

/-- Reads the resources of a document, and what is wrong with them. -/
def readResources (caseSensitive : Bool) :
    Resources → List Element → Resources × List LoadError
  | r, [] => (r, [])
  | r, e :: es =>
    match r.add caseSensitive e with
    | .ok r => readResources caseSensitive r es
    | .error err =>
      let (r, errs) := readResources caseSensitive r es
      (r, err :: errs)

variable [PropertyTable]

/-- Reads the rules of a document, and what is wrong with them. -/
def readRules (fragments : Fragments) (caseSensitive : Bool) :
    RuleBook → List Element → RuleBook × List LoadError
  | b, [] => (b, [])
  | b, e :: es =>
    let (b, err) := b.add fragments caseSensitive e
    let (b, errs) := readRules fragments caseSensitive b es
    (b, err.toList ++ errs)

/-- Loads the grammar of a root element. -/
def load (caseSensitive : Bool) (root : Element) : Except (List LoadError) Grammar :=
  let (resources, faults) := readResources caseSensitive .empty root.elements
  let (book, ruleFaults) := readRules resources.fragments caseSensitive .empty root.elements
  match faults ++ ruleFaults with
  | [] => .ok ⟨caseSensitive, resources, book⟩
  | faults => .error faults

/-- Loads the grammar of a document. A text that is no document has that one fault. -/
def ofDocument (caseSensitive : Bool) (source : Text) : Except (List LoadError) Grammar :=
  match Document.read? source with
  | none => .error [.malformedDocument]
  | some root => load caseSensitive root

/-- The rule of an id, negative or not. -/
def rule? (g : Grammar) (id : Text) : Option Rule := g.book.get? id

/-- The fragment of an id. -/
def fragment? (g : Grammar) (id : Text) : Option Fragment := g.resources.fragments.get? id

/-- The table of an id. Number signs before the id are passed over. -/
def table? (g : Grammar) (id : Text) : Option NormalizationTable :=
  g.resources.tables.get? (id.dropWhile (· == '#'))

end Grammar

end TimePhrase
