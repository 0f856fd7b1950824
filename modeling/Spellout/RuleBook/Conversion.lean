/-
  Spelling values out and reading texts with a rule book.

  * `RuleBook.format` is the text of a value, `RuleBook.formatVerbose` the text with the steps that
    led to it;
  * `RuleBook.parse` is the value at the start of a text, with the number of bytes it takes up.

  All of them take the name of a public rule set, or none for the default set.
-/
import Spellout.Options
import Spellout.Reading.Memo
import Spellout.Spelling.Expansion

namespace Spellout

/-- A value, and the number of bytes of UTF-8 it was read from. -/
structure Outcome where
  value : Binary64
  consumed : Nat
deriving DecidableEq

namespace RuleBook

/-- The text of a value, and the rules that led to it. -/
def formatVerbose (book : RuleBook) (v : Binary64) (set : Option Text) (context : Context)
    (options : Options) : Except Error Spelling := do
  let s ← book.entry set
  Speller.format ⟨book, context.numerals, options.maxDepth⟩ s v

/-- The text of a value. -/
def format (book : RuleBook) (v : Binary64) (set : Option Text) (context : Context)
    (options : Options) : Except Error Text := do
  return (← book.formatVerbose v set context options).text

/-- The value at the start of a text. -/
def parse (book : RuleBook) (t : Text) (set : Option Text) (context : Context)
    (options : Options) : Except Error Outcome := do
  let s ← book.entry set
  let reader := Reader.ofText book context.numerals options.lenient options.maxDepth t
  match ← reader.read s with
  | some (value, consumed) => return ⟨value, consumed⟩
  | none => .error (.noMatch s.name)

end RuleBook
end Spellout
