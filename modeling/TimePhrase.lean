import TimePhrase.Main
import TimePhrase.Proofs.Script.RoundTrip
import TimePhrase.Proofs.Grammar.InputEnd
import TimePhrase.Proofs.Pattern.Order
import TimePhrase.Proofs.Restriction.Placement
import TimePhrase.Proofs.Restriction.Beginning
import TimePhrase.Proofs.Restriction.Seams
import TimePhrase.Proofs.Restriction.Sentence
import TimePhrase.Proofs.Rule.Placement
import TimePhrase.Proofs.Rule.Reading
import TimePhrase.Proofs.Rule.Scripts
import TimePhrase.Proofs.Rule.Actions
import TimePhrase.Proofs.Grammar.Load
import TimePhrase.Proofs.Grammar.History
import TimePhrase.Proofs.Grammar.RuleOrder
import TimePhrase.Proofs.Grammar.Deletion
import TimePhrase.Proofs.Grammar.Suppression
import TimePhrase.Proofs.Pattern.Spans
import TimePhrase.Proofs.Pattern.Walk
import TimePhrase.Proofs.Pattern.Complete
import TimePhrase.Proofs.Pattern.CharSet
import TimePhrase.Proofs.Pattern.Compose
import TimePhrase.Proofs.Pattern.Meaning
import TimePhrase.Proofs.Pattern.Written
import TimePhrase.Proofs.Rule.Expression
import TimePhrase.Proofs.Rule.Language
import TimePhrase.Proofs.Grammar.Faults
import TimePhrase.Proofs.Script.Openings
import TimePhrase.Proofs.Script.Unambiguous
import TimePhrase.Proofs.Script.Form
import TimePhrase.Proofs.Script.Sequence
import TimePhrase.Proofs.Restriction.Joined
import TimePhrase.Proofs.Restriction.Walks
import TimePhrase.Proofs.Pattern.Hereditary
import TimePhrase.Proofs.Pattern.Parts
import TimePhrase.Proofs.Pattern.Names
import TimePhrase.Proofs.Pattern.Hidden
import TimePhrase.Proofs.Rule.Yield
import TimePhrase.Proofs.Rule.Hidden
import TimePhrase.Proofs.Rule.Registration
import TimePhrase.Proofs.Script.Registry
import TimePhrase.Proofs.Script.Inputs
import TimePhrase.Proofs.Script.Closed
import TimePhrase.Proofs.Script.Frame
import TimePhrase.Proofs.Rule.Groups
import TimePhrase.Proofs.Pattern.CaseFolding
import TimePhrase.Proofs.Pattern.Caseless
import TimePhrase.Proofs.Text.Lowercase
import TimePhrase.Proofs.Rule.Caseless
import TimePhrase.Proofs.Document.CharacterData
import TimePhrase.Proofs.Document.Prolog
import TimePhrase.Proofs.Document.Content
import TimePhrase.Proofs.Document.Severed
import TimePhrase.Proofs.Document.Asides
import TimePhrase.Proofs.Rule.Severed
import TimePhrase.Proofs.Grammar.Asides
import TimePhrase.Proofs.Resource.NormalizationTable
import TimePhrase.Proofs.Script.Arithmetic
import TimePhrase.Proofs.Script.TableLookup
import TimePhrase.Proofs.Grammar.References
import TimePhrase.Proofs.Rule.Anchored
import TimePhrase.Proofs.Grammar.Candidates
import TimePhrase.Proofs.Restriction.NormalForm
import TimePhrase.Proofs.Script.Faults
import TimePhrase.Proofs.Script.Cutting
import TimePhrase.Proofs.Script.Splitting
import TimePhrase.Proofs.Script.Quotation
import TimePhrase.Proofs.Script.Calls
