/-
  How substitutions read.

  A substitution reads a stretch of text with its target: by asking a rule set, or as a numeral.
  Which rules of the set may answer depends on the rule that the substitution belongs to.  The
  remainder of a rule for values with a fraction reads digits that are spelled out one by one.

  * `Reader.readTarget` reads with a target, `Reader.readDigits` reads spelled digits;
  * `Reader.readNormal`, `Reader.readFraction`, `Reader.readNegative` and `Reader.readNumerator` say
    how the substitutions of the four kinds of rules read.
-/
import Spellout.Reading.Template

namespace Spellout.Reader

/-- Reads a stretch with a target, `deeper` levels down. -/
def readTarget (r : Reader) (deeper : Nat) (owner : RuleSet) (mode : Mode) (t : Target)
    (start stop : Nat) : Search (Option Match) :=
  match t with
  | .owner => .ask deeper ⟨owner, mode, start, stop⟩ .done
  | .ruleSet name => do
    let s ← Search.ofExcept (r.book.resolve name)
    .ask deeper ⟨s, mode, start, stop⟩ .done
  | .numeral p => .done (r.readNumeral? p start stop)

/-- Where the next spelled digit may start: behind a separator, if digits are separated. -/
def digitStart? (r : Reader) (separated : Bool) (place stop : Nat) : Option Nat :=
  if !separated then some place
  else if r.lenient then some (r.skip (stop - place) place)
  else if place < stop && r.hasKey place (.char ' ') then some (place + 1)
  else none

/-- The digit that a match behind `place` stands for. -/
def digit? (place : Nat) (m : Match) : Option Char :=
  if place < m.stop then
    match m.value with
    | .finite negative x =>
      if x.steps % Binary64.stepsPerUnit = 0 ∧ x.floor < 10 ∧ (negative → x.steps = 0) then
        some (Nat.digitChar x.floor)
      else none
    | _ => none
  else none

/-- Reads digits that are spelled out one by one, `fuel` at most; `digits` has the last one first. -/
def readDigitsFrom (r : Reader) (s : RuleSet) (spaced : Bool) (stop : Nat) :
    Nat → Text → Nat → Search (Text × Nat)
  | 0, digits, place => .done (digits, place)
  | fuel + 1, digits, place =>
    match r.digitStart? (spaced && digits ≠ []) place stop with
    | none => .done (digits, place)
    | some start =>
      .ask 0 ⟨s, .integer (some 10), start, stop⟩ fun found =>
        match found with
        | none => .done (digits, place)
        | some m =>
          match digit? start m with
          | none => .done (digits, place)
          | some c => r.readDigitsFrom s spaced stop fuel (c :: digits) m.stop

/-- Reads the digits behind a decimal point, spelled out one by one. -/
def readDigits (r : Reader) (s : RuleSet) (spaced : Bool) (start stop : Nat) :
    Search (Option Match) := do
  let (digits, place) ← r.readDigitsFrom s spaced stop (stop - start + 1) [] start
  return if digits = [] then none
    else some ⟨Decimal.nearest false (.ofDigits [] digits.reverse), place⟩

/-- How the substitutions of a rule with a base value read, given how `>>>` reads. -/
def readNormal (r : Reader) (s : RuleSet) (rule : Rule) (bound : Option Nat) (deeper : Nat)
    (forced : (start stop : Nat) → Search (Option Match)) : SubReader
  | .quotient t, start, stop =>
    r.readTarget deeper s (.integer (some rule.divisor)) t start stop
  | .remainder t, start, stop => do
    let found ← r.readTarget deeper s (.integer (some rule.divisor)) t start stop
    return found.filter fun m => m.value.lt (.ofNat rule.divisor)
  | .forced, start, stop => forced start stop
  | .same t, start, stop => r.readTarget deeper s (.integer bound) t start stop

/-- How the substitutions of a rule for values with a fraction read. -/
def readFraction (r : Reader) (s : RuleSet) : SubReader
  | .quotient t, start, stop => r.readTarget 0 s (.integer none) t start stop
  | .remainder .owner, start, stop => r.readDigits s true start stop
  | .remainder (.ruleSet name), start, stop =>
    r.readTarget 0 s .denominators (.ruleSet name) start stop
  | .forced, start, stop => r.readDigits s false start stop
  | .remainder t, start, stop | .same t, start, stop => r.readTarget 0 s .full t start stop

/-- How the substitutions of a rule for values below zero read. -/
def readNegative (r : Reader) (s : RuleSet) : SubReader
  | .forced, start, stop => r.readTarget 0 s .full .owner start stop
  | .quotient t, start, stop | .remainder t, start, stop | .same t, start, stop =>
    r.readTarget 0 s .full t start stop

/-- How the substitutions of a rule with a denominator read: numerators with the default set. -/
def readNumerator (r : Reader) (s : RuleSet) : SubReader
  | .quotient .owner, start, stop =>
    r.readTarget 0 (r.book.default?.getD s) (.integer none) .owner start stop
  | .forced, start, stop => r.readTarget 0 s (.integer none) .owner start stop
  | .quotient t, start, stop | .remainder t, start, stop | .same t, start, stop =>
    r.readTarget 0 s (.integer none) t start stop

end Spellout.Reader
