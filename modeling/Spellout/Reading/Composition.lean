/-
  The value of a rule, from the values that its substitutions read.

  * `Parts` are the values read so far: of several quotients or remainders the last counts, of
    several values of the whole the first;
  * `Parts.normal`, `Parts.fraction`, `Parts.negative` and `Parts.numerator` put them together, each
    for one way to apply a rule.
-/
import Spellout.Number.Binary64
import Spellout.Rule.RuleSet

namespace Spellout

/-- The values that substitutions have read. -/
structure Parts where
  quotient : Option Binary64 := none
  remainder : Option Binary64 := none
  same : Option Binary64 := none
deriving DecidableEq

namespace Parts

/-- The parts with the value that one more substitution has read. -/
def add (p : Parts) (sub : Substitution) (v : Binary64) : Parts :=
  match sub with
  | .quotient _ => { p with quotient := some v }
  | .remainder _ | .forced => { p with remainder := some v }
  | .same _ => { p with same := p.same.or (some v) }

/-- The value of a rule with a base value. -/
def normal (rule : Rule) (p : Parts) : Binary64 :=
  match p.same, p.quotient, p.remainder with
  | some v, _, _ => v
  | none, some q, r => (q.mul (.ofNat rule.divisor)).add (r.getD .zero)
  | none, none, some r => (Binary64.ofNat (rule.base - rule.base % rule.divisor)).add r
  | none, none, none => .ofNat rule.base

/-- The value of a rule for values with a fraction. -/
def fraction (p : Parts) : Binary64 :=
  p.same.getD ((p.quotient.getD .zero).add (p.remainder.getD .zero))

/-- The value of a rule for values below zero. -/
def negative (p : Parts) : Binary64 := (((p.remainder.or p.same).or p.quotient).getD .zero).neg

/-- The value of a rule whose base value is the denominator. -/
def numerator (rule : Rule) (p : Parts) : Binary64 :=
  ((p.quotient.or p.same).getD (.ofNat 1)).div (.ofNat rule.base)

end Parts
end Spellout
