import TimePhrase.Report.Basic
import TimePhrase.Rule.Match

/-!
# Reports of matches

Matches are printed as records, in a form for readers of the results, or in a raw form that names
kinds by their flags and puts the facts before the rule.
-/

namespace TimePhrase

/-- Facts as a record, in the order of their keys. -/
def Dictionary.report (d : Dictionary) : Report := .record (d.entries.map fun e => (e.1, .text e.2))

namespace Match

/-- A match as a record. -/
def report (m : Match) : Report :=
  .record
    [("value", .text m.value), ("index", .number m.index), ("rule_id", .text m.ruleId),
      ("rule_type", .text m.kind.name), ("timex", m.facts.report)]

/-- A match as a record in the raw form. -/
def rawReport (m : Match) : Report :=
  .record
    [("value", .text m.value), ("index", .number m.index), ("timex_dictionary", m.facts.report),
      ("rule_id", .text m.ruleId), ("rule_type", .text m.kind.flagName)]

end Match

end TimePhrase
