import Spellout.Description
import Spellout.Event
import Spellout.Number.Literal
import Spellout.Samples
import Spellout.Proofs.English.RoundTrip
import Spellout.Proofs.Reading.Independence
import Spellout.Proofs.Reading.Plain
import Spellout.Proofs.Reading.Soundness
import Spellout.Proofs.GivesUp
import Spellout.Proofs.Reading.Agreement
import Spellout.Proofs.Reading.Limit
import Spellout.Proofs.Spelling.Limit
import Spellout.Proofs.RuleBook.Limit
import Spellout.Proofs.RuleBook.Rules
import Spellout.Proofs.Reading.Nesting
import Spellout.Proofs.Number.Whole
import Spellout.Proofs.Spelling.Failure
import Spellout.Proofs.Spelling.Selection
import Spellout.Proofs.Spelling.InRange
import Spellout.Proofs.Spelling.Halving
import Spellout.Proofs.Reading.Remainder
import Spellout.Proofs.Reading.Folding
import Spellout.Description.Classes
import Spellout.Proofs.Description.Tidy
import Spellout.Proofs.RuleBook.Shape
import Spellout.Proofs.Description.Faults
import Spellout.Proofs.Spelling.Minus
import Spellout.Proofs.Reading.Checked
import Spellout.Proofs.Reading.Case
import Spellout.Proofs.Description.Comments
import Spellout.Proofs.Spelling.Steps
import Spellout.Proofs.Spelling.Numerals
import Spellout.Proofs.RuleBook.Family
import Spellout.Proofs.Reading.Lenient
import Spellout.Proofs.Reading.Sign
import Spellout.Proofs.Reading.Inside
import Spellout.Proofs.Numeral.RoundTrip
import Spellout.Proofs.Numeral.Layout
import Spellout.Proofs.Numeral.Longest
import Spellout.Proofs.Spelling.Positional
import Spellout.Proofs.Reading.Digits
import Spellout.Proofs.Spelling.Groups
import Spellout.Proofs.Description.Written
import Spellout.Proofs.Spelling.Places
import Spellout.Proofs.Rule.Divisor
import Spellout.Proofs.Reading.Greedy
import Spellout.Proofs.RuleBook.Order
import Spellout.Proofs.Rule.Keys
import Spellout.Proofs.Spelling.Acts
import Spellout.Proofs.Description.Sections
import Spellout.Proofs.Reading.Composing
