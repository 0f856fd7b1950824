/-
  Which rule is applied to a value.

  * a natural number: the rule with the greatest base value not above it, or the rule below that one
    if the rule would spell out a zero remainder (`RuleSet.chosen?`);
  * a value with a fraction: `0.x` below one, else `x.x`, else `x.0`, else the rule for the nearest
    natural number;
  * an integral value: `x.0`, else as a natural number;
  * a value below zero: `-x`, else a minus sign and the magnitude;
  * a fraction in a set of denominators: the rule whose base value brings it closest to a whole
    numerator (`RuleSet.denominator?`).

  `Request` is what may be asked of a rule set, and `Request.plan` the answer: an `Applied` rule, or
  a minus sign before another request.
-/
import Spellout.Spelling.Operand

namespace Spellout

/-! ## Rules with base values -/

/-- The rule would spell out a zero remainder, and the rule below it is for such values. -/
def Rule.stepsBack (r : Rule) (n : Nat) : Bool :=
  r.template.substitutionCount = 2 && n % r.divisor = 0 && r.base % r.divisor ≠ 0

namespace RuleSet

/-- The rule of a ladder that is applied to `n`, and the rules below it. -/
def choose? (n : Nat) : List Rule → Option (Rule × List Rule)
  | [] => none
  | [r] => some (r, [])
  | r :: p :: below => if r.stepsBack n then some (p, below) else some (r, p :: below)

/-- The rule that is applied to `n`, and the rules below it. -/
def chosen? (s : RuleSet) (n : Nat) : Option (Rule × List Rule) := choose? n (s.rungsFor n)

/-- Two distances that differ by no more than this are equally good. -/
def tolerance : Binary64 := .ofRatio false 1 (10 ^ 9)

/-- How far `v * r.base` is from an integral value. -/
def miss (v : Binary64) (r : Rule) : Binary64 :=
  let scaled := v.mul (.ofNat r.base)
  (scaled.sub scaled.round).abs

/-- The better denominator for `v` of the best one so far and another one. -/
def closer (v : Binary64) (best : Option (Rule × Binary64)) (r : Rule) : Option (Rule × Binary64) :=
  match best with
  | none => some (r, miss v r)
  | some (_, least) => if (miss v r).lt (least.sub tolerance) then some (r, miss v r) else best

/-- The rule whose base value is the best denominator for `v`; the lowest of equally good ones. -/
def denominator? (s : RuleSet) (v : Binary64) : Option Rule :=
  ((s.rules.filter fun r => 0 < r.base).foldl (closer v) none).map Prod.fst

/-- The template for a value with a fraction, with its special form. -/
def fractionForm? (s : RuleSet) (v : Binary64) : Option (SpecialForm × Template) :=
  let proper := if v.lt (.ofNat 1) then s.proper else none
  (proper.map (.proper, ·)).or ((s.improper.map (.improper, ·)).or (s.whole.map (.whole, ·)))

end RuleSet

/-! ## Requests -/

/-- What may be asked of a rule set. -/
inductive Request where
  /-- To spell out a value. -/
  | value (set : RuleSet) (x : Operand)
  /-- To apply one of its rules, given with the rules below it, to a number. -/
  | rung (set : RuleSet) (rule : Rule) (below : List Rule) (n : Nat)
  /-- To spell out a fraction with a base value as the denominator. -/
  | fraction (set : RuleSet) (v : Binary64)
deriving DecidableEq

/-- The rule set that is asked. -/
def Request.set : Request → RuleSet
  | .value s _ | .rung s .. | .fraction s _ => s

/-- A rule that has been chosen, its set, and the value it was chosen for. -/
structure Applied where
  set : RuleSet
  key : Key
  value : Operand
  template : Template
  application : Application
deriving DecidableEq

/-- How a request is met. -/
inductive Plan where
  /-- A minus sign, followed by another request. -/
  | minus (next : Request)
  /-- A rule is applied. -/
  | apply (rule : Applied)
deriving DecidableEq

namespace Plan

/-- A rule with a base value is applied to a number. -/
def normal (s : RuleSet) (rule : Rule) (below : List Rule) (n : Nat) : Plan :=
  .apply ⟨s, rule.key, .whole n, rule.template, .normal rule below n⟩

/-- A number is spelled out. -/
def whole (s : RuleSet) (n : Nat) : Except Error Plan :=
  match s.chosen? n with
  | some (rule, below) => .ok (normal s rule below n)
  | none => .error (.noRule s.name (.ofNat n))

/-- A rule for values with a fraction is applied. -/
def special (s : RuleSet) (form : SpecialForm) (t : Template) (v : Binary64) :
    Except Error Plan := do
  let n ← wholeOf v.trunc
  return .apply ⟨s, .special form, .real v, t, .fraction v n⟩

/-- A magnitude is spelled out below zero. -/
def negative (s : RuleSet) (magnitude : Operand) : Plan :=
  match s.negative with
  | some t => .apply ⟨s, .special .negative, magnitude.neg, t, .negative magnitude⟩
  | none => .minus (.value s magnitude)

/-- A binary number is spelled out. -/
def real (s : RuleSet) (v : Binary64) : Except Error Plan :=
  if v.isNegative then do return negative s (← Operand.ofReal v.neg)
  else if v.isIntegral then
    match s.whole with
    | some t => special s .whole t v
    | none => do whole s (← wholeOf v)
  else
    match s.fractionForm? v with
    | some (form, t) => special s form t v
    | none => do whole s (← wholeOf v.round)

/-- A fraction is spelled out with a denominator. -/
def fraction (s : RuleSet) (v : Binary64) : Except Error Plan :=
  match s.denominator? v with
  | some rule => do
    let n ← wholeOf (v.mul (.ofNat rule.base)).round
    return .apply ⟨s, rule.key, .real v, rule.template, .numerator n⟩
  | none => .error (.noRule s.name v)

end Plan

/-- How a request is met. -/
def Request.plan : Request → Except Error Plan
  | .value s (.whole n) => Plan.whole s n
  | .value s (.real v) => Plan.real s v
  | .rung s rule below n => .ok (Plan.normal s rule below n)
  | .fraction s v => Plan.fraction s v

end Spellout
