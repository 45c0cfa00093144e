import TimePhrase.Text.Basic

/-!
# Faults of resources

What can be wrong with the declaration of a resource, and how it is reported.
-/

namespace TimePhrase

/-- A fault in the declaration of a resource. -/
inductive ResourceError where
  | missingAttribute (element attr : Text)
  | missingExpression (id : Text)
  | unknownScope (id value : Text)
  | invalidAttribute (id attr value : Text)
  | duplicateEntry (table surface : Text)
deriving DecidableEq

namespace ResourceError

/-- The report of a fault. -/
def message : ResourceError → Text
  | .missingAttribute element attr =>
    "<" ++ element ++ "> is missing required attribute '" ++ attr ++ "'"
  | .missingExpression id => "regex '" ++ id ++ "' does not specify an expression"
  | .unknownScope id value => "resource '" ++ id ++ "' has unknown scope '" ++ value ++ "'"
  | .invalidAttribute id attr value =>
    "resource '" ++ id ++ "' has invalid value '" ++ value ++ "' for attribute '" ++ attr ++ "'"
  | .duplicateEntry table surface =>
    "normalization table '" ++ table ++ "' defines '" ++ surface ++ "' more than once"

end ResourceError

end TimePhrase
