import TimePhrase.Pattern.Search
import TimePhrase.Rule.Phrase
import TimePhrase.Script.Registry
import TimePhrase.Vocabulary.Kind

/-!
# Rules

A rule recognises one kind of expression. It is compiled from its element into two patterns, one to
be found anywhere in a text and one for whole texts, and has to match its own example with both.
The scripts of its groups go into a registry, and the rule looks them up there when it first
matches.

* `Rule.ofElement?`  compiles an element, without its scripts
* `Rule.compile`  compiles an element and registers its scripts
-/

namespace TimePhrase

/-- A compiled rule. -/
structure Rule where
  header : Header
  kind : Kind
  /-- A text that the rule matches as a whole. -/
  sample : Text
  phrase : Phrase
  /-- Matches anywhere in a text. -/
  pattern : Pattern
  /-- Matches whole texts only. -/
  exactPattern : Pattern
  /-- The scripts of the tagged groups, once a match has asked for them. -/
  actions : Option (List (Nat × TagScript))

namespace Rule

/-- The rule's id. -/
def id (r : Rule) : Text := r.header.id

/-- Whether queries can see the rule. -/
def isExposed (r : Rule) : Bool := r.header.scope == .exposed

/-- The text of the pattern, not anchored. -/
def expression (r : Rule) : Text := r.phrase.expression

/-- Reads an attribute that may be neither missing nor blank. -/
def requiredAttribute (e : Element) (ruleId attr : Text) : Except LoadError Text :=
  match e.filledAttribute? attr with
  | some value => .ok value
  | none => .error (.missingAttribute ruleId e.name attr)

/-- Reads the header of a rule. -/
def headerOf (e : Element) : Except LoadError Header :=
  match e.header? with
  | .ok h => .ok h
  | .error cause => .error (.resource cause)

/-- Reads the kind of a rule. -/
def kindOf (e : Element) (ruleId : Text) : Except LoadError Kind := do
  let value ← requiredAttribute e ruleId "type"
  match Kind.ofName? value with
  | some kind => return kind
  | none => throw (.unknownKind ruleId value)

/-- The text of a pattern for whole texts. -/
def anchored (expression : Text) : Text := "^(?:" ++ expression ++ ")$"

variable [PropertyTable]

/-- Reads the text of one of the rule's patterns. -/
def patternOf (ruleId : Text) (caseSensitive : Bool) (expression : Text) :
    Except LoadError Pattern :=
  match Pattern.read? (!caseSensitive) expression with
  | some p => .ok p
  | none => .error (.invalidPattern ruleId)

/-- Compiles a rule. Its example is tried on the pattern as it is before the anchored one. -/
def ofElement? (fragments : Fragments) (caseSensitive : Bool) (e : Element) :
    Except LoadError Rule := do
  let header ← headerOf e
  let kind ← kindOf e header.id
  let sample ← requiredAttribute e header.id "example"
  let phrase ← Phrase.ofChildren header.id fragments e.children
  let pattern ← patternOf header.id caseSensitive phrase.expression
  let exactPattern ← patternOf header.id caseSensitive (anchored phrase.expression)
  -- A text that only the anchored pattern misses shows a rule that does not cover its own example.
  if !pattern.isIn sample then throw (.exampleMismatch header.id sample false)
  if !exactPattern.isIn sample then throw (.exampleMismatch header.id sample true)
  return ⟨header, kind, sample, phrase, pattern, exactPattern, none⟩

/-- Registers the scripts of tagged groups in order, up to the first one that does not compile. -/
def registerScripts (ruleId : Text) : Registry → List (Nat × Text) → Registry × Option Script.Error
  | scripts, [] => (scripts, none)
  | scripts, (part, source) :: r =>
    match scripts.append ruleId (Part.name part) source with
    | .ok scripts => registerScripts ruleId scripts r
    | .error e => (scripts, some e)

/-- Compiles a rule and registers its scripts. The scripts before a faulty one stay registered. -/
def compile (fragments : Fragments) (caseSensitive : Bool) (scripts : Registry) (e : Element) :
    Registry × Except LoadError Rule :=
  match ofElement? fragments caseSensitive e with
  | .error err => (scripts, .error err)
  | .ok rule =>
    match registerScripts rule.id scripts rule.phrase.tags with
    | (scripts, none) => (scripts, .ok rule)
    | (scripts, some cause) => (scripts, .error (.script cause))

end Rule

end TimePhrase
