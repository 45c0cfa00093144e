import TimePhrase.Text.Blank

/-!
# Scopes

A resource is either open to queries or there for other resources only.
-/

namespace TimePhrase

/-- Who can see a resource. -/
inductive Scope where
  /-- Other resources only. -/
  | hidden
  /-- Queries as well. -/
  | exposed
deriving DecidableEq, Repr

namespace Scope

instance : Inhabited Scope := ⟨.exposed⟩

/-- The name in grammars and reports. -/
def name : Scope → Text
  | .hidden => "private"
  | .exposed => "public"

/-- Reads a name, in any case and between blanks. -/
def ofName? (s : Text) : Option Scope :=
  [Scope.hidden, .exposed].find? fun k => k.name.sameAsciiLetters s.trim

end Scope

end TimePhrase
