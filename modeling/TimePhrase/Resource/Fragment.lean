import TimePhrase.Resource.Header

/-!
# Fragments

A fragment is a named piece of pattern text, put in wherever a rule refers to it.
-/

namespace TimePhrase

/-- A named piece of pattern text. -/
structure Fragment where
  header : Header
  expression : Text
deriving DecidableEq, Inhabited

namespace Fragment

/-- The fragment's id. -/
def id (f : Fragment) : Text := f.header.id

/-- Reads a fragment. The expression is taken as it stands, blanks included. -/
def ofElement? (e : Element) : Except ResourceError Fragment := do
  let header ← e.header?
  match e.attribute? "expression" with
  | none => .error (.missingExpression header.id)
  | some expression => .ok ⟨header, expression⟩

end Fragment

/-- The fragments of a grammar, in the order of their declarations. -/
abbrev Fragments := List Fragment

/-- The fragment of an id. -/
def Fragments.get? (fs : Fragments) (id : Text) : Option Fragment := fs.find? fun f => f.id == id

end TimePhrase
