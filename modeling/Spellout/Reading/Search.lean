/-
  Searches: what is asked on the way to an answer.

  To read a text with a rule set is to ask further questions of the same kind: which value does that
  set find at the start of that stretch of the text?  A `Search` is a strategy that asks questions,
  goes on with their answers, and ends with a result or an error.  It does not say how questions are
  answered; a memory of earlier answers and the limit on nesting are added later.

  * `Mode`, `Question` and `Match` are what is asked and answered;
  * `Search` is the type of strategies, with `Search.bind` to go on after one.
-/
import Spellout.Error
import Spellout.Rule.RuleSet

namespace Spellout

/-! ## Questions and answers -/

/-- Which rules of a set may answer a question. -/
inductive Mode where
  /-- All rules. -/
  | full
  /-- Rules with base values, both these and the value below the bound, if there is one. -/
  | integer (bound : Option Nat)
  /-- Rules with base values above zero, taken as denominators. -/
  | denominators
deriving DecidableEq, Repr

/-- What does the set read at the start of the stretch from `start` to `stop`? -/
structure Question where
  set : RuleSet
  mode : Mode
  start : Nat
  stop : Nat
deriving DecidableEq, Repr

/-- A value, and the place where the text it was read from ends. -/
structure Match where
  value : Binary64
  stop : Nat
deriving DecidableEq

namespace Match

/-- The longer of two matches, the first of two that end at the same place. -/
def longer : Option Match → Option Match → Option Match
  | best, none => best
  | none, some m => some m
  | some b, some m => if b.stop < m.stop then some m else some b

end Match

/-! ## Searches -/

/-- A strategy that asks questions and ends with a result or an error. -/
inductive Search (α : Type) where
  /-- The result. -/
  | done (a : α)
  /-- An error. -/
  | fail (e : Error)
  /-- A question, `deeper` levels below those that the search was begun with. -/
  | ask (deeper : Nat) (q : Question) (next : Option Match → Search α)

namespace Search

variable {α β : Type}

/-- Goes on with the result of a search. -/
def bind : Search α → (α → Search β) → Search β
  | .done a, f => f a
  | .fail e, _ => .fail e
  | .ask deeper q next, f => .ask deeper q fun m => (next m).bind f

instance : Monad Search where
  pure := .done
  bind := Search.bind

@[simp] theorem pure_eq (a : α) : (pure a : Search α) = .done a := rfl

@[simp] theorem bind_eq (x : Search α) (f : α → Search β) : x >>= f = x.bind f := rfl

@[simp] theorem bind_done (x : Search α) : x.bind .done = x := by
  induction x with
  | done | fail => rfl
  | ask deeper q next ih => simp [Search.bind, ih]

theorem bind_assoc {γ : Type} (x : Search α) (f : α → Search β) (g : β → Search γ) :
    (x.bind f).bind g = x.bind fun a => (f a).bind g := by
  induction x with
  | done | fail => rfl
  | ask deeper q next ih => simp [Search.bind, ih]

/-- The error or the result of a step that asks nothing. -/
def ofExcept : Except Error α → Search α
  | .ok a => .done a
  | .error e => .fail e

/-- The longest match of several searches, and of the one given; earlier ones win ties. -/
def longest (f : β → Search (Option Match)) : List β → Option Match → Search (Option Match)
  | [], best => .done best
  | b :: rest, best => do longest f rest (Match.longer best (← f b))

end Search
end Spellout
