/-
  Which rules are tried to answer a question.

  The rules of the asked set that the mode lets in are tried, special rules first and then from the
  highest base value downwards.  The longest match counts, the first one of equally long ones.

  * `Candidate` is a rule as it may answer a question, `RuleSet.candidates` are those of a set;
  * `Reader.matchCandidate` matches one of them;
  * `Reader.search` is the search for the answer to a question.
-/
import Spellout.Reading.Substitution

namespace Spellout

/-! ## Rungs -/

namespace Reader

/-- The longest match of the first rule of a ladder; its `>>>` reads with the rule below it. -/
def matchRung (r : Reader) (s : RuleSet) : List Rule → Option Nat → Nat → (start stop : Nat) →
    Search (Option Match)
  | [], _, _, _, _ => .done none
  | rule :: below, bound, deeper, start, stop =>
    let forced : (start stop : Nat) → Search (Option Match) :=
      match below with
      | [] => r.readTarget deeper s (.integer (some rule.divisor)) .owner
      | _ :: _ => r.matchRung s below (some rule.divisor) (deeper + 1)
    r.matchTemplate (r.readNormal s rule bound deeper forced) (Parts.normal rule) rule.template
      start stop

end Reader

/-! ## Candidates -/

/-- A rule as it may answer a question. -/
inductive Candidate where
  | negative (t : Template)
  | fraction (t : Template)
  /-- A rule with a base value, and the rules below it. -/
  | normal (rule : Rule) (below : List Rule)
  /-- A rule whose base value is the denominator. -/
  | numerator (rule : Rule)
deriving DecidableEq

/-- A value stands below the bound, if there is one. -/
def Mode.admits (mode : Mode) (v : Binary64) : Bool :=
  match mode with
  | .integer (some b) => v.lt (.ofNat b)
  | _ => true

/-- The bound of a mode, if it has one. -/
def Mode.bound? : Mode → Option Nat
  | .integer bound => bound
  | _ => none

namespace RuleSet

/-- Every rule of a ladder with the rules below it. -/
def rungs : List Rule → List Candidate
  | [] => []
  | rule :: below => .normal rule below :: rungs below

/-- The rules that may answer a question, in the order in which they are tried. -/
def candidates (s : RuleSet) (mode : Mode) : List Candidate :=
  match mode with
  | .full =>
    s.negative.toList.map .negative ++
      [s.improper, s.proper, s.whole].flatMap (fun t => t.toList.map .fraction) ++ rungs s.ladder
  | .integer _ =>
    (rungs s.ladder).filter fun
      | .normal rule _ => mode.admits (.ofNat rule.base)
      | _ => false
  | .denominators => (s.ladder.filter fun rule => 0 < rule.base).map .numerator

end RuleSet

namespace Reader

/-- The longest match of a candidate for a question. -/
def matchCandidate (r : Reader) (q : Question) : Candidate → Search (Option Match)
  | .negative t => r.matchTemplate (r.readNegative q.set) Parts.negative t q.start q.stop
  | .fraction t => r.matchTemplate (r.readFraction q.set) Parts.fraction t q.start q.stop
  | .normal rule below => do
    let found ← r.matchRung q.set (rule :: below) q.mode.bound? 0 q.start q.stop
    return found.filter fun m => q.mode.admits m.value
  | .numerator rule =>
    r.matchTemplate (r.readNumerator q.set) (Parts.numerator rule) rule.template q.start q.stop

/-- The search for the answer to a question: the longest match of its candidates. -/
def search (r : Reader) (q : Question) : Search (Option Match) :=
  Search.longest (r.matchCandidate q) (q.set.candidates q.mode) none

end Reader
end Spellout
