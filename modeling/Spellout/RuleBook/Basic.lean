/-
  Rule books: compiled descriptions.

  A rule book holds the rule sets of a description, in the order of their declaration, and the texts
  that count as equal when text is read leniently.  Rules refer to sets by name; a name is looked up
  when a rule is applied.

  * `RuleBook.find?` is the set of a name, `RuleBook.default?` the first public set;
  * `RuleBook.entry` is the set a caller asks for: a public one of a name, or the default.
-/
import Spellout.Equivalence.Symbol
import Spellout.Rule.RuleSet
import Spellout.Error

namespace Spellout

/-- A compiled description. -/
structure RuleBook where
  sets : List RuleSet
  equivalences : Equivalences
deriving DecidableEq, Repr

namespace RuleBook

/-- The rule set of a name. -/
def find? (book : RuleBook) (name : Text) : Option RuleSet :=
  book.sets.find? fun s => s.name = name

/-- The first public rule set. -/
def default? (book : RuleBook) : Option RuleSet := book.sets.find? RuleSet.isPublic

/-- The names of the public rule sets. -/
def publicNames (book : RuleBook) : List Text := (book.sets.filter RuleSet.isPublic).map RuleSet.name

/-- The rule set that a rule refers to. -/
def resolve (book : RuleBook) (name : Text) : Except Error RuleSet :=
  match book.find? name with
  | some s => .ok s
  | none => .error (.undefinedRuleSet name)

/-- The rule set a caller asks for, the default set if no name is given.  Private sets are refused. -/
def entry (book : RuleBook) : Option Text → Except Error RuleSet
  | some name => do
    let s ← book.resolve name
    if s.isPublic then .ok s else .error (.privateRuleSet s.name)
  | none =>
    match book.default? with
    | some s => .ok s
    | none => .error .noPublicRuleSet

end RuleBook
end Spellout
