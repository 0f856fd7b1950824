/-
  Events: what is reported about work that has been done.

  Compiling, spelling out and reading each report one event when they succeed, and none when they
  fail.

  * `Event` are the events, `Event.message` is the text shown for one;
  * `RuleBook.compiled`, `RuleBook.formatEvents`, `RuleBook.formatVerboseEvents` and
    `RuleBook.parseEvents` are the events of an operation.
-/
import Spellout.RuleBook.Conversion

namespace Spellout

/-- What is reported about work that has been done. -/
inductive Event where
  /-- A description has been compiled: how many rule sets, rules with base values and groups of
      equal texts it has, and the name of its default set. -/
  | compiled (ruleSets rules groups : Nat) (default : Option Text)
  /-- A value has been spelled out. -/
  | formatted (ruleSet : Text) (value : Binary64) (text : Text)
  /-- A value has been spelled out, in so many steps, down to a depth. -/
  | traced (ruleSet : Text) (value : Binary64) (steps depth : Nat)
  /-- A value has been read. -/
  | parsed (ruleSet : Text) (value : Binary64) (consumed : Nat) (lenient : Bool)
deriving DecidableEq

/-- The text shown for an event. -/
def Event.message : Event → String
  | .compiled .. => "compiled rule description"
  | .formatted .. => "formatted"
  | .traced .. => "formatted (verbose)"
  | .parsed .. => "parsed"

namespace RuleBook

/-- The event of compiling the rule book. -/
def compiled (book : RuleBook) : Event :=
  .compiled book.sets.length (book.sets.flatMap RuleSet.ladder).length
    book.equivalences.groups.length (book.default?.map RuleSet.name)

/-- The event of an operation on a rule set, if the operation has a result. -/
def eventsOf {α : Type} (book : RuleBook) (set : Option Text) (event : Text → α → Event) :
    Except Error α → List Event
  | .ok a =>
    match book.entry set with
    | .ok s => [event s.name a]
    | .error _ => []
  | .error _ => []

/-- The events of spelling a value out, with the given result. -/
def formatEvents (book : RuleBook) (v : Binary64) (set : Option Text) :
    Except Error Text → List Event :=
  book.eventsOf set fun name t => .formatted name v t

/-- The events of spelling a value out with its steps, with the given result. -/
def formatVerboseEvents (book : RuleBook) (v : Binary64) (set : Option Text) :
    Except Error Spelling → List Event :=
  book.eventsOf set fun name s => .traced name v s.steps.length s.depth

/-- The events of reading a text, with the given result. -/
def parseEvents (book : RuleBook) (set : Option Text) (options : Options) :
    Except Error Outcome → List Event :=
  book.eventsOf set fun name o => .parsed name o.value o.consumed options.lenient

end RuleBook
end Spellout
