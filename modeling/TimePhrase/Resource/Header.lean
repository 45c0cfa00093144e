import TimePhrase.Document.Element
import TimePhrase.Resource.Error
import TimePhrase.Vocabulary.Hints
import TimePhrase.Vocabulary.Scope

/-!
# Headers of resources

Every resource declares an id and may declare a scope.
-/

namespace TimePhrase

/-- What every resource declares. -/
structure Header where
  id : Text
  scope : Scope
deriving DecidableEq, Inhabited

namespace Element

/-- The trimmed value of an attribute, unless it is missing or blank. -/
def filledAttribute? (e : Element) (name : Text) : Option Text :=
  ((e.attribute? name).map Text.trim).filter fun v => !v.isEmpty

/-- Reads the header. The id is looked for before the scope. -/
def header? (e : Element) : Except ResourceError Header :=
  match e.filledAttribute? "id" with
  | none => .error (.missingAttribute e.name "id")
  | some id =>
    match e.attribute? "scope" with
    | none => .ok ⟨id, .exposed⟩
    | some value =>
      match Scope.ofName? value with
      | none => .error (.unknownScope id value)
      | some scope => .ok ⟨id, scope⟩

/-- Reads a truth value, which may be missing, of the resource `id`. -/
def flag? (e : Element) (id attr : Text) : Except ResourceError (Option Bool) :=
  match (e.attribute? attr).map Text.trim with
  | none => .ok none
  | some value =>
    match value.toBool? with
    | none => .error (.invalidAttribute id attr value)
    | some b => .ok (some b)

end Element

end TimePhrase
