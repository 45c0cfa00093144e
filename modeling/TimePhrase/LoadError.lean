import TimePhrase.Resource.Error
import TimePhrase.Script.Error

/-!
# Faults of grammars

What can be wrong with a grammar document, and how it is reported. A grammar is loaded only if it
has no fault at all.
-/

namespace TimePhrase

/-- A fault in a grammar document. -/
inductive LoadError where
  | resource (cause : ResourceError)
  | script (cause : Script.Error)
  | missingAttribute (ruleId element attr : Text)
  | unknownKind (ruleId value : Text)
  | unknownFragment (ruleId reference : Text)
  | invalidRepeat (ruleId value : Text)
  | invalidInclude (ruleId value : Text)
  | duplicateTag (ruleId : Text)
  | emptyRule (ruleId : Text)
  | emptyChoice (ruleId : Text)
  | invalidPattern (ruleId : Text)
  /-- The example is not matched, by the rule's pattern as it is or when anchored at both ends. -/
  | exampleMismatch (ruleId sample : Text) (anchored : Bool)
  | duplicateId (what id : Text)
  | malformedDocument
deriving DecidableEq

namespace LoadError

/-- The report of a fault. -/
def message : LoadError → Text
  | .resource cause => cause.message
  | .script cause => cause.message
  | .missingAttribute ruleId element attr =>
    "rule '" ++ ruleId ++ "': <" ++ element ++ "> is missing required attribute '" ++ attr ++ "'"
  | .unknownKind ruleId value => "rule '" ++ ruleId ++ "': unknown temporal type '" ++ value ++ "'"
  | .unknownFragment ruleId reference =>
    "rule '" ++ ruleId ++ "': reference to undefined regex '" ++ reference ++ "'"
  | .invalidRepeat ruleId value => "rule '" ++ ruleId ++ "': invalid repeat range '" ++ value ++ "'"
  | .invalidInclude ruleId value =>
    "rule '" ++ ruleId ++ "': invalid include flag '" ++ value ++ "'"
  | .duplicateTag ruleId => "rule '" ++ ruleId ++ "': a node carries more than one <tag>"
  | .emptyRule ruleId => "rule '" ++ ruleId ++ "' has no grammar content"
  | .emptyChoice ruleId => "rule '" ++ ruleId ++ "': <one-of> has no alternatives"
  | .invalidPattern ruleId => "rule '" ++ ruleId ++ "': compiled expression is not a valid regex"
  | .exampleMismatch ruleId sample anchored =>
    let pattern : Text := if anchored then "anchored" else "unanchored"
    "rule '" ++ ruleId ++ "': example " ++ sample.quoted ++ " does not match the " ++ pattern
      ++ " pattern"
  | .duplicateId what id => "duplicate " ++ what ++ " id '" ++ id ++ "'"
  | .malformedDocument => "grammar document is not well-formed XML"

end LoadError

end TimePhrase
