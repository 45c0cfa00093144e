import TimePhrase.LoadError
import TimePhrase.Pattern.Reader
import TimePhrase.Resource.Fragment
import TimePhrase.Rule.Repeat
import TimePhrase.Vocabulary.Part

/-!
# Phrases

The content of a rule, read from its element and written as the text of a pattern. A node that
carries a tag, a restriction or a repeat range becomes a group. Groups are numbered in document
order, a group before those inside it.

* `Phrase.ofChildren`  reads the content of an element
* `Phrase.expression`  the text of the pattern
* `Phrase.groups`  the groups, those inside a group before it
-/

namespace TimePhrase

/-- What a group of a phrase carries. -/
structure Mark where
  range : Option Repeat
  /-- Whether the text of the group is left out of the value of a match. -/
  excluded : Bool
  /-- The part of speech asked for. It is kept, but nothing is checked against it. -/
  position : Option Text
  /-- The source of the script for the text of the group. -/
  tag : Option Text
deriving DecidableEq, Inhabited

namespace Mark

/-- Whether the mark says nothing, so that no group is needed for it. -/
def isPlain (m : Mark) : Bool :=
  m.range.isNone && !m.excluded && m.position.isNone && m.tag.isNone

/-- The tag of a node: the trimmed text of its only `tag` child. -/
def tagOf? (ruleId : Text) (e : Element) : Except LoadError (Option Text) :=
  match e.elements.filter fun c => c.name == ("tag" : Text) with
  | [] => .ok none
  | [tag] => .ok (some tag.text.trim)
  | _ => .error (.duplicateTag ruleId)

/-- The repeat range of a node. -/
def rangeOf? (ruleId : Text) (e : Element) : Except LoadError (Option Repeat) :=
  match e.attribute? "repeat" with
  | none => .ok none
  | some value =>
    match Repeat.ofText? value with
    | some range => .ok (some range)
    | none => .error (.invalidRepeat ruleId value)

/-- Whether a node is to be left out. -/
def excludedOf? (ruleId : Text) (e : Element) : Except LoadError Bool :=
  match e.flag? ruleId "include" with
  | .ok flag => .ok (flag == some false)
  | .error _ => .error (.invalidInclude ruleId ((e.attribute? "include").getD []).trim)

/-- Reads the mark of a node. -/
def ofElement? (ruleId : Text) (e : Element) : Except LoadError Mark := do
  let range ← rangeOf? ruleId e
  let excluded ← excludedOf? ruleId e
  let tag ← tagOf? ruleId e
  return ⟨range, excluded, e.filledAttribute? "pos", tag⟩

end Mark

/-- What a rule describes. -/
inductive Phrase where
  /-- Words with blanks between them. -/
  | words (ws : List Text)
  /-- One phrase after the other, with or without blanks between them. -/
  | sequence (ps : List Phrase)
  /-- One of several phrases. -/
  | choice (ps : List Phrase)
  /-- The pattern text of a fragment. -/
  | fragment (expression : Text)
  /-- A phrase that carries a mark, as the group `part`. -/
  | group (part : Nat) (mark : Mark) (body : Phrase)
deriving Inhabited

namespace Phrase

/-! ## Reading -/

/-- A run of text as a phrase; nothing if it is blank. -/
def ofText? (s : Text) : Option Phrase :=
  match s.words with
  | [] => none
  | ws => some (.words ws)

/-- The fragment that a reference names. Number signs before the id are passed over. -/
def ofReference (ruleId : Text) (fragments : Fragments) (e : Element) : Except LoadError Phrase :=
  match e.filledAttribute? "uri" with
  | none => .error (.missingAttribute ruleId e.name "uri")
  | some uri =>
    let reference := uri.dropWhile (· == '#')
    match fragments.get? reference with
    | some f => .ok (.fragment f.expression)
    | none => .error (.unknownFragment ruleId reference)

/-- The names of the elements that contribute to a phrase. -/
def isStructural (name : Text) : Bool := name = "item" ∨ name = "one-of" ∨ name = "ruleref"

mutual

/-- Reads what a node contributes, if it does. `next` is the number of the next group, which is
    returned as it is after the node. -/
def ofNode (ruleId : Text) (fragments : Fragments) :
    Node → Nat → Except LoadError (Option Phrase × Nat)
  | .text content, next => .ok (ofText? content, next)
  | .element name attributes children, next =>
    if !isStructural name then .ok (none, next)
    else do
      let e : Element := ⟨name, attributes, children⟩
      let mark ← Mark.ofElement? ruleId e
      -- The group takes its number before those inside it.
      let first := if mark.isPlain then next else next + 1
      let (body, after) ←
        if name = "ruleref" then do
          let body ← ofReference ruleId fragments e
          pure (body, first)
        else do
          let (members, after) ← ofNodes ruleId fragments children first
          if name = "item" then pure (.sequence members, after)
          else if members.isEmpty then throw (.emptyChoice ruleId)
          else pure (.choice members, after)
      if mark.isPlain then
        -- An item without content contributes nothing, unless its mark makes it a group.
        match body with
        | .sequence [] => return (none, after)
        | body => return (some body, after)
      else return (some (.group next mark body), after)

/-- Reads what the nodes of a list contribute. -/
def ofNodes (ruleId : Text) (fragments : Fragments) :
    List Node → Nat → Except LoadError (List Phrase × Nat)
  | [], next => .ok ([], next)
  | n :: r, next => do
    let (p, next) ← ofNode ruleId fragments n next
    let (ps, next) ← ofNodes ruleId fragments r next
    return (p.toList ++ ps, next)

end

/-- Reads the content of a rule's element. A rule without content is refused. -/
def ofChildren (ruleId : Text) (fragments : Fragments) (children : List Node) :
    Except LoadError Phrase := do
  let (members, _) ← ofNodes ruleId fragments children 0
  if members.isEmpty then throw (.emptyRule ruleId)
  return .sequence members

/-! ## Writing -/

/-- A text in a pattern: a backslash before every character with a meaning of its own. -/
def escaped (s : Text) : Text :=
  s.flatMap fun c => if Pattern.isMeta c then ['\\', c] else [c]

/-- A text in parentheses that group and nothing else. -/
def inParens (s : Text) : Text := "(?:" ++ s ++ ")"

mutual

/-- The text of the pattern for a phrase. -/
def expression : Phrase → Text
  | .words ws => inParens (Text.join "\\s+" (ws.map escaped))
  | .sequence ps => Text.join "\\s*" (expressions ps)
  | .choice ps => inParens (Text.join "|" (expressions ps))
  | .fragment e => inParens e
  | .group part mark body =>
    let inner := match mark.range with
      | none => body.expression
      | some range => inParens body.expression ++ range.sign
    "(?P<" ++ Part.name part ++ ">" ++ inner ++ ")"

/-- The texts of the patterns for the phrases of a list. -/
def expressions : List Phrase → List Text
  | [] => []
  | p :: r => p.expression :: expressions r

end

/-! ## Groups -/

mutual

/-- The groups of a phrase with their marks, in the order in which they close. -/
def groups : Phrase → List (Nat × Mark)
  | .words _ => []
  | .sequence ps => groupsOf ps
  | .choice ps => groupsOf ps
  | .fragment _ => []
  | .group part mark body => body.groups ++ [(part, mark)]

/-- The groups of the phrases of a list. -/
def groupsOf : List Phrase → List (Nat × Mark)
  | [] => []
  | p :: r => p.groups ++ groupsOf r

end

/-- The groups with a tag, and the sources of their scripts. -/
def tags (p : Phrase) : List (Nat × Text) := p.groups.filterMap fun g => g.2.tag.map (g.1, ·)

/-- The groups with a part of speech. -/
def positions (p : Phrase) : List (Nat × Text) :=
  p.groups.filterMap fun g => g.2.position.map (g.1, ·)

/-- The groups whose text is left out of a value. -/
def excluded (p : Phrase) : List Nat := (p.groups.filter (·.2.excluded)).map (·.1)

end Phrase

end TimePhrase
