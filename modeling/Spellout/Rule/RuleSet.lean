/-
  Rules and rule sets.

  A rule set holds at most one template for each special form, and rules with base values.  The
  latter form a ladder: highest base value first, so that the rule for a value is the first one
  whose base value is not above it, and the rules below it follow.

  * `RuleSet.rungsFor n` is the ladder from the rule for `n` downwards;
  * `RuleSet.rules` are the rules in ascending order;
  * `RuleSet.special` is the template of a special form.
-/
import Spellout.Rule.Key
import Spellout.Rule.Name
import Spellout.Rule.Template

namespace Spellout

/-- A rule with a base value. -/
structure Rule where
  /-- The least value the rule is for. -/
  base : Nat
  /-- The radix whose power is the divisor. -/
  radix : Nat
  /-- The number of powers of the radix taken away from the divisor. -/
  marks : Nat
  /-- The rule was written without a key and continues the count of the rule before it. -/
  keyless : Bool
  template : Template
deriving DecidableEq, Repr

namespace Rule

/-- The key that gives the rule its base value, radix and divisor. -/
def key (r : Rule) : Key := .numeric r.base r.radix r.marks

/-- The power of the radix that splits values into quotient and remainder. -/
def divisor (r : Rule) : Nat := r.key.divisor

end Rule

/-- A named collection of rules. -/
structure RuleSet where
  name : Text
  negative : Option Template := none
  improper : Option Template := none
  proper : Option Template := none
  whole : Option Template := none
  /-- The rules with base values, highest first. -/
  ladder : List Rule := []
deriving DecidableEq, Repr

namespace RuleSet

/-- Callers may ask for the set: its name does not start with `%%`. -/
def isPublic (s : RuleSet) : Bool := SetName.isPublic s.name

/-- The rules with base values, in ascending order. -/
def rules (s : RuleSet) : List Rule := s.ladder.reverse

/-- The template of a special form. -/
def special (s : RuleSet) : SpecialForm → Option Template
  | .negative => s.negative
  | .improper => s.improper
  | .proper => s.proper
  | .whole => s.whole

/-- The set with a template for a special form. -/
def withSpecial (s : RuleSet) (form : SpecialForm) (t : Template) : RuleSet :=
  match form with
  | .negative => { s with negative := some t }
  | .improper => { s with improper := some t }
  | .proper => { s with proper := some t }
  | .whole => { s with whole := some t }

/-- The ladder from the rule with the greatest base value not above `n` downwards. -/
def rungsFor (s : RuleSet) (n : Int) : List Rule := s.ladder.dropWhile fun r => n < r.base

/-- The place, in ascending order, of the rule with the greatest base value not above `n`. -/
def find? (s : RuleSet) (n : Int) : Option Nat :=
  match s.rungsFor n with
  | [] => none
  | _ :: below => some below.length

end RuleSet
end Spellout
