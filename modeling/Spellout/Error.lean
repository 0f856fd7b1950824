/-
  Why a value cannot be spelled out or a text not be read.

  * `Error` are the causes, `Error.message` is the text shown for one.
-/
import Spellout.Numeral.System

namespace Spellout

/-- Why a value cannot be spelled out or a text not be read. -/
inductive Error where
  /-- A rule or a caller names a rule set that does not exist. -/
  | undefinedRuleSet (name : Text)
  /-- A caller asks for a private rule set. -/
  | privateRuleSet (name : Text)
  /-- There is no public rule set to take as the default. -/
  | noPublicRuleSet
  /-- Rules are nested more deeply than allowed. -/
  | depthExceeded (ruleSet : Text) (limit : Nat)
  /-- The value is below all rules of the set. -/
  | noRule (ruleSet : Text) (value : Binary64)
  /-- The value is an infinity or not a number. -/
  | nonFinite (value : Binary64)
  /-- The value is too large for a signed word of 64 bits. -/
  | outOfRange (value : Binary64)
  /-- No rule matches the start of the text. -/
  | noMatch (ruleSet : Text)
  /-- The numeral system fails. -/
  | numeral (cause : NumeralError)
deriving DecidableEq

/-- The text shown for an error. -/
def Error.message : Error → Text
  | .undefinedRuleSet name => "rule set ".toList ++ name ++ " is not defined".toList
  | .privateRuleSet name => "rule set ".toList ++ name ++ " is private".toList
  | .noPublicRuleSet => "no public rule set to format with".toList
  | .depthExceeded ruleSet limit =>
    "recursion limit of ".toList ++ Nat.toDigits 10 limit ++ " exceeded in ".toList ++ ruleSet
  | .noRule ruleSet v => "rule set ".toList ++ ruleSet ++ " has no rule for ".toList ++ v.text
  | .nonFinite v => "cannot format non-finite value ".toList ++ v.text
  | .outOfRange v => "value ".toList ++ v.text ++ " is outside the range rules can divide".toList
  | .noMatch ruleSet => "no rule in ".toList ++ ruleSet ++ " matches the input".toList
  | .numeral cause => cause.message

end Spellout
